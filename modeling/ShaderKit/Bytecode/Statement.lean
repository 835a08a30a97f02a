import ShaderKit.Bytecode.ConstantTable
import ShaderKit.Bytecode.Item
import ShaderKit.Bytecode.Reflection
import ShaderKit.Hexadecimal

/-!
# What the items of a shader say

Each item is read by itself, given only the version of the shader it stands in: an instruction
refers to constant registers, a declaration is an attribute or a sampler, a definition is a
constant, and a comment may hold the constant table.  `Item.statement` is that reading.  An error
tells how many words after the first word of the item it was found.

Attributes of pixel shaders before version three have no usage of their own; the register tells it.
-/

set_option autoImplicit false

namespace ShaderKit
namespace Bytecode

/-! ## Versions -/

/-- The kind and the version of a shader. -/
structure Version where
  kind : ShaderKind
  major : Nat
  minor : Nat
  deriving DecidableEq, Repr

/-- Whether a pixel shader is so old that its registers tell the usage of its attributes. -/
def Version.isLegacyPixel (v : Version) : Bool := v.kind = .pixel && v.major < 3

/-! ## Errors -/

/-- Why a shader is refused. -/
inductive ShaderError where
  | empty
  | misaligned (size : Nat)
  | unexpectedEnd
  | unsupportedVersion (token : UInt32)
  | unsupportedModel (major minor : Nat)
  | missingEnd
  | unknownUsage (number : Nat)
  | unsupportedSampler (number : Nat)
  | table (e : TableError)
  deriving DecidableEq, Repr

namespace ShaderError

def message : ShaderError → String
  | empty => "Shader bytecode is empty"
  | misaligned size => s!"Shader bytecode length {size} is not a multiple of 4"
  | unexpectedEnd => "Unexpected EOF"
  | unsupportedVersion token => s!"Unsupported shader version token 0x{Hexadecimal.word token}"
  | unsupportedModel major minor => s!"Shader model {major}.{minor} is not supported"
  | missingEnd => "Missing END token"
  | unknownUsage number => s!"Unknown usage {number} in dcl"
  | unsupportedSampler number => s!"Unsupported sampler texture type {number}"
  | table e => e.message

end ShaderError

/-! ## Registers -/

/-- An operand, as the register it names. -/
structure Register where
  file : Nat
  number : Nat
  /-- The number is only where an address register counts from. -/
  relative : Bool
  deriving DecidableEq, Repr

/-- A constant register: its file, and its number there. -/
structure ConstantRegister where
  type : ConstantType
  number : Nat
  deriving DecidableEq, Repr

namespace Register

/-- The register that a word names.  The number of its file is in two parts of the word. -/
def ofWord (w : UInt32) : Register where
  file := (((w >>> 28) &&& (0x7 : UInt32)) ||| ((w >>> 8) &&& (0x18 : UInt32))).toNat
  number := (w &&& 0x7FF).toNat
  relative := w &&& 0x2000 ≠ 0

/-- The files of inputs, of textures and of samplers. -/
def inputFile : Nat := 1
def textureFile : Nat := 3
def samplerFile : Nat := 10

/-- The constant register that a register is.  The float registers are in four files, one behind the
other. -/
def constant? (r : Register) : Option ConstantRegister :=
  match r.file with
  | 2 => some ⟨.float, r.number⟩
  | 11 => some ⟨.float, r.number + 2048⟩
  | 12 => some ⟨.float, r.number + 4096⟩
  | 13 => some ⟨.float, r.number + 6144⟩
  | 7 => some ⟨.int, r.number⟩
  | 14 => some ⟨.bool, r.number⟩
  | _ => none

end Register

/-- A constant register that an instruction reads, and whether it is addressed relatively. -/
structure Reference where
  register : ConstantRegister
  relative : Bool
  deriving DecidableEq, Repr

/-! ## Statements -/

/-- What an item says. -/
inductive Statement where
  | instruction (references : List Reference)
  | input (a : Attribute)
  | sampler (register : Nat) (type : SamplerType)
  | constant (c : Constant)
  | table (t : ConstantTable)
  /-- A comment without a table, or a declaration or definition of no interest. -/
  | nothing
  deriving DecidableEq, Repr

/-- An error, and the number of words after the first word of the item where it was found. -/
structure ItemError where
  offset : Nat
  error : ShaderError
  deriving DecidableEq, Repr

/-- The opcodes of declarations and of the three kinds of definitions. -/
def declareOpcode : UInt32 := 0x1F
def defineBoolOpcode : UInt32 := 0x2F
def defineIntOpcode : UInt32 := 0x30
def defineFloatOpcode : UInt32 := 0x51

/-- The word that a comment begins with which holds the constant table. -/
def tableMark : UInt32 := wordOfBytes 0x43 0x54 0x41 0x42

/-- The reference that an operand of an instruction is.  Only words with the highest bit set are
operands; others belong to the operand before them. -/
def reference? (operand : UInt32) : Option Reference :=
  if (operand &&& 0x80000000) = 0 then none
  else
    let r := Register.ofWord operand
    r.constant?.map fun register => ⟨register, r.relative⟩

/-- The type of sampler in a declaration. -/
def samplerType? (number : Nat) : Option SamplerType :=
  match number with
  | 2 => some .twoD
  | 3 => some .cube
  | 4 => some .volume
  | _ => none

/-- What a declaration says. -/
def declaration (v : Version) (operands : List UInt32) : Except ItemError Statement :=
  match operands with
  | declared :: destination :: _ =>
    let r := Register.ofWord destination
    if r.file = Register.inputFile then
      if v.isLegacyPixel then .ok (.input { usage := .color, index := r.number })
      else
        let number := (declared &&& 0x1F).toNat
        match Usage.ofNumber? number with
        | some usage =>
          .ok (.input { usage, index := ((declared >>> 16) &&& 0xF).toNat })
        | none => .error ⟨1, .unknownUsage number⟩
    else if r.file = Register.textureFile && v.isLegacyPixel then
      .ok (.input { usage := .texCoord, index := r.number })
    else if r.file = Register.samplerFile then
      let number := ((declared >>> 27) &&& 0xF).toNat
      match samplerType? number with
      | some type => .ok (.sampler r.number type)
      | none => .error ⟨1, .unsupportedSampler number⟩
    else .ok .nothing
  | _ => .error ⟨0, .unexpectedEnd⟩

/-- The value in a definition; components that are not there are zero. -/
def definedValue (code : UInt32) (words : List UInt32) : ConstantValue :=
  let quad : Quad UInt32 := ⟨words.getD 0 0, words.getD 1 0, words.getD 2 0, words.getD 3 0⟩
  if code = defineFloatOpcode then .float ⟨⟨quad.x⟩, ⟨quad.y⟩, ⟨quad.z⟩, ⟨quad.w⟩⟩
  else if code = defineIntOpcode then
    .int ⟨quad.x.toInt32, quad.y.toInt32, quad.z.toInt32, quad.w.toInt32⟩
  else .bool (quad.x ≠ 0)

/-- What a definition says.  The operation code decides the type of the value, and the register only
its number. -/
def definitionStatement (code : UInt32) (operands : List UInt32) : Statement :=
  match operands with
  | [] => .nothing
  | destination :: words =>
    match (Register.ofWord destination).constant? with
    | some register => .constant ⟨register.number, definedValue code words⟩
    | none => .nothing

/-- What a comment says. -/
def commentStatement (words : List UInt32) : Except ItemError Statement :=
  match words with
  | mark :: table =>
    if mark = tableMark then
      match ConstantTable.parse (bytesOfWords table) with
      | .ok t => .ok (.table t)
      | .error e => .error ⟨0, .table e⟩
    else .ok .nothing
  | [] => .ok .nothing

/-- What an item says in a shader of the given version. -/
def Item.statement (v : Version) (i : Item) : Except ItemError Statement :=
  let code := opcode i.token
  if code = commentOpcode then commentStatement i.payload
  else if code = declareOpcode then declaration v i.payload
  else if code = defineFloatOpcode || code = defineIntOpcode || code = defineBoolOpcode then
    .ok (definitionStatement code i.payload)
  else .ok (.instruction (i.payload.filterMap reference?))

/-! ## Parts of statements

What a statement contributes to each part of a reflection. -/

namespace Statement

/-- The constant registers that an instruction reads; no other statement reads any. -/
def references : Statement → List Reference
  | instruction references => references
  | _ => []

def attribute? : Statement → Option Attribute
  | input a => some a
  | _ => none

def constant? : Statement → Option Constant
  | constant c => some c
  | _ => none

def sampler? : Statement → Option (Nat × SamplerType)
  | sampler register type => some (register, type)
  | _ => none

def table? : Statement → Option ConstantTable
  | table t => some t
  | _ => none

def isInstruction : Statement → Bool
  | instruction _ => true
  | _ => false

end Statement
end Bytecode
end ShaderKit
