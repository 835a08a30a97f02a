import ShaderKit.Diagnostic
import ShaderKit.Text.Blank
import ShaderKit.Text.Newline

/-!
# Messages of an external compiler

A compiler that is run as a program reports its errors as text, one to a line, in the form
`file:line: error: message`.  `CompilerLog.diagnostics` reads such a text.  Empty lines are left
out, and so is the closing count of errors, which is known by its last word.  A line of any other
form is an error without a place.

Only the first two colons of a line separate anything; a message may contain as many as it likes.
-/

set_option autoImplicit false

namespace ShaderKit
namespace CompilerLog

/-- The number that a text of decimal digits writes, a plus sign in front allowed, if it fits 32
bits. -/
def wordValue? (text : List Char) : Option Nat :=
  let digits := match text with
    | '+' :: rest => rest
    | _ => text
  if digits.isEmpty || !digits.all Char.isDigit then none
  else
    let value := digits.foldl (fun n c => n * 10 + (c.toNat - '0'.toNat)) 0
    if value ≤ Diagnostic.lastPosition then some value else none

/-- The text without a word in front of it, if it begins with that word. -/
def dropWord? (word : List Char) (text : List Char) : Option (List Char) :=
  if word.isPrefixOf text then some (text.drop word.length) else none

/-- The file, the position and the rest of a line of the usual form. -/
def place? (line : List Char) : Option (List Char × Nat × List Char) := do
  let (file, rest) ← Text.cutAt? ':' line
  let (position, rest) ← Text.cutAt? ':' rest
  return (file, ← wordValue? (Text.trim position), Text.trim rest)

/-- The diagnostic of a line. -/
def ofLine (line : List Char) : Diagnostic :=
  match place? line with
  | some (file, position, rest) =>
    let message := match dropWord? "error:".toList rest with
      | some message => Text.trim message
      | none => rest
    ⟨some (String.ofList file), position, String.ofList message⟩
  | none => ⟨none, 0, String.ofList line⟩

/-- Whether a line closes the report. -/
def isSummary (line : List Char) : Bool := "generated.".toList.isSuffixOf line

/-- The diagnostics in the text of a compiler. -/
def diagnostics (text : List Char) : List Diagnostic :=
  ((Text.physicalLines text).map Text.trim).filterMap fun line =>
    if line.isEmpty || isSummary line then none else some (ofLine line)

end CompilerLog
end ShaderKit
