/-!
# Diagnostics

One reported error: the file it is about, if one is known, a position, and a message.  What a
position counts depends on who reports — lines of a source text, tokens of a shader, bytes of an
effect — but it counts from one, and zero says that the error has no place.  It always fits a
32-bit word: `Diagnostic.ofPosition` cuts a larger number down to the greatest word rather than
let it wrap.
-/

set_option autoImplicit false

namespace ShaderKit

/-- One reported error. -/
structure Diagnostic where
  file : Option String
  position : Nat
  message : String
  deriving DecidableEq, Repr, Inhabited

namespace Diagnostic

/-- The greatest position a diagnostic can carry. -/
def lastPosition : Nat := 0xFFFFFFFF

/-- The diagnostic for a position counted without bound. -/
def ofPosition (file : Option String) (position : Nat) (message : String) : Diagnostic :=
  ⟨file, min position lastPosition, message⟩

/-- The diagnostic as one line, `file:position: ERROR: message`, with `fallback` in the place of a
file nobody knows. -/
def render (d : Diagnostic) (fallback : String) : String :=
  s!"{d.file.getD fallback}:{d.position}: ERROR: {d.message}"

end Diagnostic
end ShaderKit
