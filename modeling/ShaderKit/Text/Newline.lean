/-!
# Lines of a text

Two views of line ends.  `normaliseNewlines` turns every carriage return that is followed by a
line feed into nothing, so that a text written on either kind of system reads the same; a carriage
return on its own is an ordinary character and stays.  `physicalLines` cuts a text at its line
feeds; a final line feed ends the last line and does not begin another one, so the empty text has
no lines at all.
-/

set_option autoImplicit false

namespace ShaderKit
namespace Text

/-- The text with every carriage return removed that stands right before a line feed. -/
def normaliseNewlines : List Char → List Char
  | '\r' :: '\n' :: s => '\n' :: normaliseNewlines s
  | c :: s => c :: normaliseNewlines s
  | [] => []

/-- The lines of a text, line feeds left out. -/
def physicalLines : List Char → List (List Char)
  | [] => []
  | c :: s =>
    if c = '\n' then [] :: physicalLines s
    else
      match physicalLines s with
      | [] => [[c]]
      | line :: lines => (c :: line) :: lines

end Text
end ShaderKit
