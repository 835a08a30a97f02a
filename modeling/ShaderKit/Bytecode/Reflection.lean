import ShaderKit.Diagnostic
import ShaderKit.Single

/-!
# What bytecode says about itself

The result of reading a shader or an effect: what goes in, which constants are baked in, what has to
be set from outside, and the diagnostics of a reading that failed.

A reading that failed has diagnostics and nothing else but its profile (`ShaderReflection.failed`,
`EffectReflection.failed`).  The types do not force this, because a report has to be given for any
reflection, wherever it comes from; whoever renders one looks at the diagnostics first.
-/

set_option autoImplicit false

namespace ShaderKit
namespace Bytecode

/-- The stage of the pipeline a shader is for. -/
inductive ShaderKind where
  | unknown
  | pixel
  | vertex
  | geometry
  deriving DecidableEq, Repr, Inhabited

namespace ShaderKind

def name : ShaderKind → String
  | unknown => "unknown"
  | pixel => "pixel"
  | vertex => "vertex"
  | geometry => "geometry"

def all : List ShaderKind := [unknown, pixel, vertex, geometry]

end ShaderKind

/-- What an input of a shader means, in the order of the numbers that stand for them. -/
inductive Usage where
  | position | blendWeight | blendIndices | normal | pointSize | texCoord | tangent
  | binormal | tessFactor | positionT | color | fog | depth | sample
  deriving DecidableEq, Repr, Inhabited

namespace Usage

def all : List Usage :=
  [position, blendWeight, blendIndices, normal, pointSize, texCoord, tangent, binormal,
   tessFactor, positionT, color, fog, depth, sample]

/-- The usage that a number stands for. -/
def ofNumber? (n : Nat) : Option Usage := all[n]?

def name : Usage → String
  | position => "position"
  | blendWeight => "blendweight"
  | blendIndices => "blendindices"
  | normal => "normal"
  | pointSize => "psize"
  | texCoord => "texcoord"
  | tangent => "tangent"
  | binormal => "binormal"
  | tessFactor => "tessfactor"
  | positionT => "positiont"
  | color => "color"
  | fog => "fog"
  | depth => "depth"
  | sample => "sample"

end Usage

/-- An input of a shader. -/
structure Attribute where
  usage : Usage
  index : Nat
  name : Option String := none
  deriving DecidableEq, Repr

/-- The three files of constant registers. -/
inductive ConstantType where
  | float
  | int
  | bool
  deriving DecidableEq, Repr, Inhabited

namespace ConstantType

def name : ConstantType → String
  | float => "float"
  | int => "int"
  | bool => "bool"

def all : List ConstantType := [float, int, bool]

/-- The place of a register file in lists that name all three. -/
def rank : ConstantType → Nat
  | float => 0
  | int => 1
  | bool => 2

end ConstantType

/-- Four components. -/
structure Quad (α : Type) where
  x : α
  y : α
  z : α
  w : α
  deriving DecidableEq, Repr

/-- The value of a constant. -/
inductive ConstantValue where
  | float (value : Quad Single)
  | int (value : Quad Int32)
  | bool (value : Bool)
  deriving DecidableEq, Repr

namespace ConstantValue

def type : ConstantValue → ConstantType
  | float _ => .float
  | int _ => .int
  | bool _ => .bool

end ConstantValue

/-- A register whose value is baked into the bytecode. -/
structure Constant where
  index : Nat
  value : ConstantValue
  deriving DecidableEq, Repr

/-- A register, or a row of them, that a shader reads. -/
structure Uniform where
  index : Nat
  type : ConstantType
  /-- The number of registers of an array, zero for a single register. -/
  arrayCount : Nat
  /-- The bytecode defines the value itself. -/
  constant : Bool
  name : Option String
  deriving DecidableEq, Repr

/-- The shapes of textures. -/
inductive SamplerType where
  | twoD
  | cube
  | volume
  deriving DecidableEq, Repr, Inhabited

namespace SamplerType

def name : SamplerType → String
  | twoD => "2d"
  | cube => "cube"
  | volume => "volume"

def all : List SamplerType := [twoD, cube, volume]

end SamplerType

/-- A texture that a shader reads. -/
structure Sampler where
  index : Nat
  type : SamplerType
  name : Option String
  deriving DecidableEq, Repr

/-- What a single shader says about itself. -/
structure ShaderReflection where
  profile : String
  kind : ShaderKind := .unknown
  major : Nat := 0
  minor : Nat := 0
  /-- The number of instructions.  It is not more than a fourth of the number of bytes
  (`instructionCount_readShader_le`), so that 32 bits are enough for it unless a shader has
  16 GiB or more. -/
  instructionCount : Nat := 0
  attributes : List Attribute := []
  constants : List Constant := []
  uniforms : List Uniform := []
  samplers : List Sampler := []
  /-- The text of the program, if there is one. -/
  output : Option String := none
  diagnostics : List Diagnostic := []
  deriving DecidableEq, Repr

namespace ShaderReflection

/-- The reflection of a shader that could not be read. -/
def failed (profile : String) (diagnostics : List Diagnostic) : ShaderReflection :=
  { profile, diagnostics }

def isOk (s : ShaderReflection) : Bool := s.diagnostics.isEmpty

end ShaderReflection

/-- A pass of a technique: its name, and the types of the states it sets. -/
structure Pass where
  name : String
  states : List UInt32
  deriving DecidableEq, Repr

/-- A way to draw an effect. -/
structure Technique where
  name : String
  passes : List Pass
  deriving DecidableEq, Repr

/-- A texture that an effect names, for one of its parameters. -/
structure Texture where
  name : String
  parameter : UInt32
  deriving DecidableEq, Repr

/-- A shader inside an effect, and the place where it is used. -/
structure EffectShader where
  technique : UInt32
  pass : UInt32
  shader : ShaderReflection
  deriving DecidableEq, Repr

/-- What an effect says about itself. -/
structure EffectReflection where
  profile : String
  diagnostics : List Diagnostic := []
  techniques : List Technique := []
  textures : List Texture := []
  shaders : List EffectShader := []
  deriving DecidableEq, Repr

namespace EffectReflection

/-- The reflection of an effect that could not be read. -/
def failed (profile : String) (diagnostics : List Diagnostic) : EffectReflection :=
  { profile, diagnostics }

/-- Whether neither the effect nor any shader in it has diagnostics. -/
def isOk (e : EffectReflection) : Bool :=
  e.diagnostics.isEmpty && e.shaders.all (·.shader.isOk)

end EffectReflection

/-- What some bytecode says about itself. -/
inductive Reflection where
  | shader (s : ShaderReflection)
  | effect (e : EffectReflection)
  deriving DecidableEq, Repr

namespace Reflection

def isOk : Reflection → Bool
  | shader s => s.isOk
  | effect e => e.isOk

end Reflection
end Bytecode
end ShaderKit
