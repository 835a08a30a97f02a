/-!
# Hexadecimal numbers

Numbers to the base sixteen, with capital letters for the digits above nine: as short as they can
be, or with the eight digits of a word.
-/

set_option autoImplicit false

namespace ShaderKit
namespace Hexadecimal

/-- The digit of a number below sixteen. -/
def digit (n : Nat) : Char := (Nat.digitChar n).toUpper

/-- The last `width` digits of a number, zeros in front. -/
def fixed : Nat → Nat → List Char
  | 0, _ => []
  | width + 1, n => fixed width (n / 16) ++ [digit (n % 16)]

/-- The eight digits of a word. -/
def word (w : UInt32) : String := String.ofList (fixed 8 w.toNat)

/-- The digits of a number, without zeros in front. -/
def digits (n : Nat) : String := String.ofList ((Nat.toDigits 16 n).map Char.toUpper)

end Hexadecimal
end ShaderKit
