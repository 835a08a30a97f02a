/-!
# Numbers of single precision

A number in the 32-bit binary format, kept as its bits: one for the sign, eight for the exponent,
twenty-three for the fraction.  Nothing here computes with it; it is read and it is written.

`Single.fixed` writes it with six decimals.  Every number of the format is an integer times a
power of two (`Single.magnitude?`), so the decimals are those of an exact quotient of integers,
rounded to the nearest and, in a tie, to the even neighbour (`roundQuotient`).  The sign is kept
even where only zeros are left.
-/

set_option autoImplicit false

namespace ShaderKit

/-- A number of single precision. -/
structure Single where
  bits : UInt32
  deriving DecidableEq, Repr, Inhabited

/-- The integer nearest to `num / den`, the even one of two that are equally near. -/
def roundQuotient (num den : Nat) : Nat :=
  let q := num / den
  let r := num % den
  if 2 * r < den ∨ (2 * r = den ∧ q % 2 = 0) then q else q + 1

namespace Single

/-- The sign bit is set. -/
def isNegative (x : Single) : Bool := x.bits >>> 31 = 1

/-- The eight bits of the exponent, as they are stored. -/
def exponentField (x : Single) : Nat := ((x.bits >>> 23) &&& 0xFF).toNat

/-- The bits behind the point of the significand. -/
def fractionField (x : Single) : Nat := (x.bits &&& 0x7FFFFF).toNat

def isNaN (x : Single) : Bool := x.exponentField = 255 && x.fractionField ≠ 0

/-- A finite number without its sign, as a quotient: numerator and denominator. -/
def magnitude? (x : Single) : Option (Nat × Nat) :=
  if x.exponentField = 255 then none
  else if x.exponentField = 0 then some (x.fractionField, Nat.pow 2 149)
  else
    let significand := x.fractionField + 0x800000
    if x.exponentField < 150 then some (significand, Nat.pow 2 (150 - x.exponentField))
    else some (significand * Nat.pow 2 (x.exponentField - 150), 1)

/-- The last `places` decimal digits of a number, zeros in front. -/
def lowDigits : Nat → Nat → List Char
  | 0, _ => []
  | places + 1, n => lowDigits places (n / 10) ++ [Nat.digitChar (n % 10)]

/-- The number with six decimals. -/
def fixed (x : Single) : String :=
  if x.isNaN then "NaN"
  else
    let sign := if x.isNegative then "-" else ""
    match x.magnitude? with
    | none => sign ++ "inf"
    | some (num, den) =>
      let millionths := roundQuotient (num * 1000000) den
      s!"{sign}{millionths / 1000000}." ++ String.ofList (lowDigits 6 millionths)

end Single
end ShaderKit
