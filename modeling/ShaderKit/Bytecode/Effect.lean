import ShaderKit.Bytecode.Shader

/-!
# Reading an effect

An effect bundles techniques, textures and shaders in one file.  Its parts stand one behind the
other: four bytes that mark an effect, a block of strings, the parameters, the techniques with their
passes and states, the textures, and the shaders — one for each state that sets one, over all
techniques.  Most parts begin with a count, and annotations stand in between, which are skipped.

The only thing that can go wrong is that the bytes run out; a count is believed until they do.  A
`Cursor` is what is left to read and how much has been read, and a `Reader` moves it.  Names are not
read where they are used: the place holds an offset, counted from the start of the string block, and
a second cursor goes there (`nameAt`).  It may go anywhere in the file.

Positions count bytes from one.
-/

set_option autoImplicit false

namespace ShaderKit
namespace Bytecode

/-- Why an effect is refused. -/
inductive EffectError where
  | notAnEffect
  /-- The bytes ran out, at a number of bytes from the start. -/
  | unexpectedEnd (index : Nat)
  deriving DecidableEq, Repr

/-- The diagnostic of an error. -/
def EffectError.diagnostic : EffectError → Diagnostic
  | notAnEffect => .ofPosition none 1 "Not an Effects file"
  | unexpectedEnd index => .ofPosition none (index + 1) "Unexpected EOF"

/-! ## Readers -/

/-- What is left of some bytes, and the number of bytes before it. -/
structure Cursor where
  index : Nat
  rest : List UInt8
  deriving DecidableEq, Repr

/-- Something that can be read off the front of what is left. -/
abbrev Reader := StateT Cursor (Except EffectError)

namespace Reader

/-- The next `size` bytes. -/
def bytes (size : Nat) : Reader (List UInt8) := fun c =>
  match splitOff? size c.rest with
  | some (taken, rest) => .ok (taken, ⟨c.index + size, rest⟩)
  | none => .error (.unexpectedEnd c.index)

/-- The next word. -/
def word : Reader UInt32 := do return wordAt (← bytes 4) 0

/-- The next word, as a number of things to come. -/
def count : Reader Nat := do return (← word).toNat

/-- Skips words. -/
def skipWords (size : Nat) : Reader Unit := do let _ ← bytes (4 * size)

/-- Reads the same thing a number of times. -/
def times {α : Type} (n : Nat) (reader : Reader α) : Reader (List α) :=
  match n with
  | 0 => return []
  | n + 1 => do
    let a ← reader
    return a :: (← times n reader)

end Reader

/-! ## Parts of an effect -/

/-- The bytes that an effect begins with. -/
def effectMark : List UInt8 := [0x01, 0x09, 0xFF, 0xFE]

/-- Whether bytes are an effect, as far as their beginning tells. -/
def isEffect (bytes : List UInt8) : Bool := effectMark.isPrefixOf bytes

/-- The text of a name; zero bytes in it are left out. -/
def nameOfBytes (bytes : List UInt8) : String :=
  String.ofList ((Utf8.decode bytes).filter (· ≠ '\x00'))

/-- Where the string block begins. -/
def stringsStart : Nat := 8

/-- The name at an offset of the string block of a file. -/
def nameAt (file : List UInt8) (offset : UInt32) : Except EffectError String := do
  let index := stringsStart + offset.toNat
  let reader : Reader String := do return nameOfBytes (← Reader.bytes (← Reader.count))
  let (name, _) ← reader ⟨index, file.drop index⟩
  return name

/-- The name whose offset comes next. -/
def readName (file : List UInt8) : Reader String := do
  let offset ← Reader.word
  nameAt file offset

/-- The number of words of an annotation. -/
def annotationSize : Nat := 2

/-- Skips annotations. -/
def skipAnnotations (n : Nat) : Reader Unit := Reader.skipWords (n * annotationSize)

/-- Skips a parameter. -/
def skipParameter : Reader Unit := do
  Reader.skipWords 3
  skipAnnotations (← Reader.count)

/-- The type of the next state; its value is skipped. -/
def readState : Reader UInt32 := do
  let type ← Reader.word
  Reader.skipWords 3
  return type

/-- The next pass.  Both counts come before what they count. -/
def readPass (file : List UInt8) : Reader Pass := do
  let name ← readName file
  let annotations ← Reader.count
  let states ← Reader.count
  skipAnnotations annotations
  return ⟨name, ← Reader.times states readState⟩

/-- The next technique, with its passes behind it. -/
def readTechnique (file : List UInt8) : Reader Technique := do
  let name ← readName file
  let annotations ← Reader.count
  let passes ← Reader.count
  skipAnnotations annotations
  return ⟨name, ← Reader.times passes (readPass file)⟩

/-- The next texture.  Its name is filled up to whole words. -/
def readTexture : Reader Texture := do
  let parameter ← Reader.word
  let size ← Reader.count
  let name ← Reader.bytes size
  let _ ← Reader.bytes ((4 - size % 4) % 4)
  return ⟨nameOfBytes name, parameter⟩

/-- The next shader.  It is not filled up. -/
def readEffectShader (profile : String) : Reader EffectShader := do
  let technique ← Reader.word
  let pass ← Reader.word
  Reader.skipWords 3
  let code ← Reader.bytes (← Reader.count)
  return ⟨technique, pass, readShader profile code⟩

/-- Whether the value of a state of this type is a shader. -/
def isShaderState (type : UInt32) : Bool := type = 0x92 || type = 0x93

/-- The number of shaders that techniques ask for. -/
def shaderStates (techniques : List Technique) : Nat :=
  ((techniques.flatMap (·.passes)).flatMap (·.states)).countP isShaderState

/-- Skips the string block. -/
def skipStrings : Reader Unit := do let _ ← Reader.bytes (← Reader.count)

/-- Everything after the string block. -/
def readParts (profile : String) (file : List UInt8) : Reader EffectReflection := do
  let parameters ← Reader.count
  let techniqueCount ← Reader.count
  Reader.skipWords 2
  let _ ← Reader.times parameters skipParameter
  let techniques ← Reader.times techniqueCount (readTechnique file)
  let textureCount ← Reader.count
  let _ ← Reader.count
  let textures ← Reader.times textureCount readTexture
  let shaders ← Reader.times (shaderStates techniques) (readEffectShader profile)
  return { profile, techniques, textures, shaders }

/-- Everything after the mark. -/
def readBundle (profile : String) (file : List UInt8) : Reader EffectReflection := do
  skipStrings
  readParts profile file

/-- The reflection of a file, if nothing is wrong with it. -/
def effectReflection (profile : String) (file : List UInt8) :
    Except EffectError EffectReflection := do
  if !isEffect file then throw .notAnEffect
  let (reflection, _) ← readBundle profile file ⟨4, file.drop 4⟩
  return reflection

/-- Reads an effect for a profile. -/
def readEffect (profile : String) (file : List UInt8) : EffectReflection :=
  if Profile.isSupported profile then
    match effectReflection profile file with
    | .ok reflection => reflection
    | .error e => .failed profile [e.diagnostic]
  else .failed profile [⟨none, 0, Profile.unsupportedMessage profile⟩]

/-! ## Either -/

/-- Reads bytes as what their beginning says they are. -/
def read (profile : String) (bytes : List UInt8) : Reflection :=
  if isEffect bytes then .effect (readEffect profile bytes)
  else .shader (readShader profile bytes)

end Bytecode
end ShaderKit
