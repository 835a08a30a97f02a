import ShaderKit.Preprocess.Token

/-!
# Operators of a condition

The operators that stand between two operands, with their precedence — a higher number binds
tighter — and the operators that stand in front of one.  Values are 64-bit words in two's
complement: sums and products wrap, a shift counts by its amount modulo 64, to the right it keeps
the sign, and division rounds towards zero.  Truth is one and falsehood zero; any other number is
true as well.

The one thing that can go wrong is a division by zero, so `BinaryOp.eval?` has no value there.
-/

set_option autoImplicit false

namespace ShaderKit
namespace Preprocess

/-- The value of a truth. -/
def truth (b : Bool) : Int64 := if b then 1 else 0

/-- Operators between two operands. -/
inductive BinaryOp where
  | or | and | bitOr | bitXor | bitAnd
  | eq | ne | lt | gt | le | ge
  | shiftLeft | shiftRight | add | sub | mul | div | rem
  deriving DecidableEq, Repr

namespace BinaryOp

/-- How an operator is written. -/
def symbol : BinaryOp → String
  | or => "||" | and => "&&" | bitOr => "|" | bitXor => "^" | bitAnd => "&"
  | eq => "==" | ne => "!=" | lt => "<" | gt => ">" | le => "<=" | ge => ">="
  | shiftLeft => "<<" | shiftRight => ">>"
  | add => "+" | sub => "-" | mul => "*" | div => "/" | rem => "%"

/-- All operators. -/
def all : List BinaryOp :=
  [or, and, bitOr, bitXor, bitAnd, eq, ne, lt, gt, le, ge, shiftLeft, shiftRight, add, sub, mul,
   div, rem]

/-- How tightly an operator binds, from one to ten. -/
def precedence : BinaryOp → Nat
  | or => 1
  | and => 2
  | bitOr => 3
  | bitXor => 4
  | bitAnd => 5
  | eq | ne => 6
  | lt | gt | le | ge => 7
  | shiftLeft | shiftRight => 8
  | add | sub => 9
  | mul | div | rem => 10

/-- The operator that a token is. -/
def ofToken? (t : Token) : Option BinaryOp := all.find? fun op => t.isPunctuator op.symbol

/-- Whether the second operand counts, given the first. -/
def needsRight (op : BinaryOp) (left : Int64) : Bool :=
  match op with
  | and => left ≠ 0
  | or => left = 0
  | _ => true

/-- The value of an operation; division by zero has none. -/
def eval? (op : BinaryOp) (a b : Int64) : Option Int64 :=
  match op with
  | or => some (truth (a ≠ 0 || b ≠ 0))
  | and => some (truth (a ≠ 0 && b ≠ 0))
  | bitOr => some (a ||| b)
  | bitXor => some (a ^^^ b)
  | bitAnd => some (a &&& b)
  | eq => some (truth (a = b))
  | ne => some (truth (a ≠ b))
  | lt => some (truth (a < b))
  | gt => some (truth (a > b))
  | le => some (truth (a ≤ b))
  | ge => some (truth (a ≥ b))
  | shiftLeft => some (a <<< b)
  | shiftRight => some (a >>> b)
  | add => some (a + b)
  | sub => some (a - b)
  | mul => some (a * b)
  | div => if b = 0 then none else some (a / b)
  | rem => if b = 0 then none else some (a % b)

end BinaryOp

/-- Operators in front of an operand. -/
inductive UnaryOp where
  | not | complement | negate | plus
  deriving DecidableEq, Repr

namespace UnaryOp

def symbol : UnaryOp → String
  | not => "!"
  | complement => "~"
  | negate => "-"
  | plus => "+"

/-- The operator that a token is. -/
def ofToken? (t : Token) : Option UnaryOp :=
  [not, complement, negate, plus].find? fun op => t.isPunctuator op.symbol

def eval (op : UnaryOp) (a : Int64) : Int64 :=
  match op with
  | not => truth (a = 0)
  | complement => ~~~a
  | negate => -a
  | plus => a

end UnaryOp
end Preprocess
end ShaderKit
