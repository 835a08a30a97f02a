import ShaderKit.Preprocess.CharClass

/-!
# Comments

Comments are taken out one logical line at a time.  A `//` comment ends with its line; a block
comment may run on, and that is the one bit carried from line to line.  Every block comment leaves
a single blank where it ends — and one at the end of the line too, if the line breaks off inside
it after some text — so that the words on its two sides stay apart.  Inside a string or character
literal nothing is a comment; a backslash there takes the next character with it, and a literal
that is never closed ends with the line.

`scan` is the machine, one state for each of the three places the reading can be in;
`stripComments` adds the blank for a line that breaks off.
-/

set_option autoImplicit false

namespace ShaderKit
namespace Preprocess

/-- Where a character of a line can stand. -/
inductive Region where
  | code
  | block
  /-- Inside a literal that the given quotation mark closes. -/
  | literal (quote : Char)
  deriving DecidableEq, Repr

/-- What is left of the rest of a line, and whether it ends inside a block comment. -/
def scan : Region → List Char → List Char × Bool
  | .block, [] => ([], true)
  | _, [] => ([], false)
  | .code, '/' :: '/' :: _ => ([], false)
  | .code, '/' :: '*' :: s => scan .block s
  | .code, c :: s =>
    let (out, inBlock) := scan (if isQuote c then .literal c else .code) s
    (c :: out, inBlock)
  | .block, '*' :: '/' :: s =>
    let (out, inBlock) := scan .code s
    (' ' :: out, inBlock)
  | .block, _ :: s => scan .block s
  | .literal quote, '\\' :: c :: s =>
    let (out, inBlock) := scan (.literal quote) s
    ('\\' :: c :: out, inBlock)
  | .literal quote, c :: s =>
    let (out, inBlock) := scan (if c = quote then .code else .literal quote) s
    (c :: out, inBlock)

/-- A line without its comments, and whether a block comment is open after it.  `inBlock` says
whether one was open before. -/
def stripComments (inBlock : Bool) (line : List Char) : List Char × Bool :=
  let (out, open?) := scan (if inBlock then .block else .code) line
  (if open? && !out.isEmpty then out ++ [' '] else out, open?)

end Preprocess
end ShaderKit
