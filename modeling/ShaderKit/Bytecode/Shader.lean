import ShaderKit.Bytecode.Uniforms
import ShaderKit.Profile

/-!
# Reading a shader

`readShader` is the whole way from bytes to a reflection.  The bytes are words; the first word is
the version; the rest are items up to the end word.  The items are taken apart first and read
afterwards, one after the other, so that of several errors the one that stands first in the shader
is reported, and an ending that is missing or cut short only if all items before it are in order.

Positions count words from one.
-/

set_option autoImplicit false

namespace ShaderKit
namespace Bytecode

/-- An error, and the number of words before the place where it was found. -/
structure LocatedError where
  index : Nat
  error : ShaderError
  deriving DecidableEq, Repr

/-- The diagnostic of an error. -/
def LocatedError.diagnostic (e : LocatedError) : Diagnostic :=
  .ofPosition none (e.index + 1) e.error.message

/-- The words of a shader; there is at least one. -/
def shaderWords (bytes : List UInt8) : Except LocatedError (UInt32 × List UInt32) :=
  if bytes.isEmpty then .error ⟨0, .empty⟩
  else
    match words? bytes with
    | some (version :: words) => .ok (version, words)
    | _ => .error ⟨bytes.length / 4, .misaligned bytes.length⟩

/-- The versions that can be read. -/
def supportedModels : List (Nat × Nat) := [(2, 0), (2, 1), (3, 0)]

/-- The version that a first word tells. -/
def version (token : UInt32) : Except LocatedError Version := do
  let kind ← match (token >>> 16).toNat with
    | 0xFFFE => pure ShaderKind.vertex
    | 0xFFFF => pure ShaderKind.pixel
    | _ => throw ⟨0, .unsupportedVersion token⟩
  let major := ((token >>> 8) &&& 0xFF).toNat
  let minor := (token &&& 0xFF).toNat
  if supportedModels.contains (major, minor) then return ⟨kind, major, minor⟩
  else throw ⟨0, .unsupportedModel major minor⟩

/-- What items say, the first of which has `index` words before it. -/
def statements (v : Version) (index : Nat) : List Item → Except LocatedError (List Statement)
  | [] => .ok []
  | i :: items =>
    match i.statement v with
    | .error e => .error ⟨index + e.offset, e.error⟩
    | .ok statement => do return statement :: (← statements v (index + i.size) items)

/-- Asks for a row of items to end as it should; the shader has `size` words. -/
def checkEnding (size : Nat) : Ending → Except LocatedError Unit
  | .closed _ => .ok ()
  | .missingEnd => .error ⟨size, .missingEnd⟩
  | .cutShort _ _ => .error ⟨size, .unexpectedEnd⟩

/-- The last constant table among some statements. -/
def lastTable? (ss : List Statement) : Option ConstantTable := (ss.filterMap (·.table?)).getLast?

/-- The samplers that are declared, with their names. -/
def samplers (ss : List Statement) : List Sampler :=
  (ss.filterMap (·.sampler?)).map fun (index, type) =>
    { index, type, name := ((lastTable? ss).bind (·.find? .sampler index)).map (·.name) }

/-- The reflection that statements amount to. -/
def reflect (profile : String) (v : Version) (ss : List Statement) : ShaderReflection :=
  let constants := ss.filterMap (·.constant?)
  { profile
    kind := v.kind
    major := v.major
    minor := v.minor
    instructionCount := ss.countP (·.isInstruction)
    attributes := ss.filterMap (·.attribute?)
    constants
    uniforms := uniforms (ss.flatMap (·.references)) constants (lastTable? ss)
    samplers := samplers ss }

/-- The version of a shader and what its items say. -/
def shaderStatements (bytes : List UInt8) : Except LocatedError (Version × List Statement) := do
  let (token, words) ← shaderWords bytes
  let v ← version token
  let (items, ending) := splitItems words
  let ss ← statements v 1 items
  checkEnding (words.length + 1) ending
  return (v, ss)

/-- Reads a shader for a profile. -/
def readShader (profile : String) (bytes : List UInt8) : ShaderReflection :=
  if Profile.isSupported profile then
    match shaderStatements bytes with
    | .ok (v, ss) => reflect profile v ss
    | .error e => .failed profile [e.diagnostic]
  else .failed profile [⟨none, 0, Profile.unsupportedMessage profile⟩]

end Bytecode
end ShaderKit
