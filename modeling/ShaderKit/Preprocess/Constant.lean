/-!
# Integer constants

The integer constants of a condition: decimal, `0x` hexadecimal, or octal after a leading zero,
with any number of the letters `u` and `l` behind, and below 2⁶⁴.  A constant is read as a pattern
of 64 bits, so the upper half of that range is negative.
-/

set_option autoImplicit false

namespace ShaderKit
namespace Preprocess

/-- The value of a digit in the bases up to sixteen. -/
def digitValue? (base : Nat) (c : Char) : Option Nat :=
  let value :=
    if '0' ≤ c ∧ c ≤ '9' then some (c.toNat - '0'.toNat)
    else if 'a' ≤ c ∧ c ≤ 'f' then some (c.toNat - 'a'.toNat + 10)
    else if 'A' ≤ c ∧ c ≤ 'F' then some (c.toNat - 'A'.toNat + 10)
    else none
  value.filter (· < base)

/-- The value of a numeral: of one digit at least, and of digits only. -/
def numeralValue? (base : Nat) : List Char → Option Nat
  | [] => none
  | digits =>
    digits.foldl (fun value c => do return (← value) * base + (← digitValue? base c)) (some 0)

/-- Whether a character may follow the digits of a constant. -/
def isSuffixLetter (c : Char) : Bool := c = 'u' || c = 'U' || c = 'l' || c = 'L'

/-- The base a constant is written in, and its digits. -/
def constantDigits (text : List Char) : Nat × List Char :=
  match (text.reverse.dropWhile isSuffixLetter).reverse with
  | '0' :: 'x' :: digits => (16, digits)
  | '0' :: 'X' :: digits => (16, digits)
  | '0' :: c :: digits => (8, c :: digits)
  | digits => (10, digits)

/-- The number of patterns of 64 bits: constants are below it. -/
def constantLimit : Nat := 0x10000000000000000

/-- The value of an integer constant. -/
def constantValue? (text : List Char) : Option Int64 :=
  let (base, digits) := constantDigits text
  match numeralValue? base digits with
  | some value => if value < constantLimit then some (Int64.ofNat value) else none
  | none => none

end Preprocess
end ShaderKit
