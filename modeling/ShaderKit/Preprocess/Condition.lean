import ShaderKit.Preprocess.Constant
import ShaderKit.Preprocess.Operator

/-!
# Conditions

The value of the expression after `#if`, read off its tokens in one pass.  The grammar is that of
integer constant expressions: the conditional operator, ten levels of binary operators, all of them
grouping to the left, and the prefix operators, down to constants, names — which are zero by now —
and parentheses.

Reading and evaluating are one activity, because an error of either kind ends it, and the earlier
one is reported.  What is read but cannot matter — the right of `0 &&`, the branch of a conditional
that is not taken — is not `live`: it has to be well formed, and its constants in range, but a
division by zero there is no error.

Each function returns the value together with the tokens it left, in a `Reading` that knows they
are fewer: this is what the recursion ends by.
-/

set_option autoImplicit false

namespace ShaderKit
namespace Preprocess

/-- What can be wrong with a condition. -/
inductive ConditionError where
  | empty
  | unexpected (text : List Char)
  | unexpectedEnd
  | badConstant (text : List Char)
  | divisionByZero
  deriving DecidableEq, Repr

namespace ConditionError

def message : ConditionError → String
  | empty => "#if with no expression"
  | unexpected text => s!"Unexpected token '{String.ofList text}' in preprocessor expression"
  | unexpectedEnd => "Unexpected end of preprocessor expression"
  | badConstant text => s!"Invalid integer constant '{String.ofList text}'"
  | divisionByZero => "Division by zero in preprocessor expression"

end ConditionError

/-- A value, and what is left of fewer than `bound` tokens. -/
structure Reading (bound : Nat) where
  value : Int64
  rest : List Token
  shorter : rest.length < bound

namespace Reading

/-- The same reading, of a longer list. -/
def widen {m n : Nat} (r : Reading m) (h : m ≤ n) : Reading n :=
  ⟨r.value, r.rest, Nat.lt_of_lt_of_le r.shorter h⟩

/-- The same reading, with another value. -/
def withValue {n : Nat} (r : Reading n) (value : Int64) : Reading n := { r with value }

/-- What follows the first token that was left is shorter still. -/
theorem length_lt {n : Nat} (r : Reading n) {t : Token} {ts : List Token} (h : r.rest = t :: ts) :
    ts.length < n :=
  Nat.lt_of_succ_lt (by simpa [h] using r.shorter)

end Reading

/-- The value of an operation, or the error it is; where the result cannot matter, zero stands for
what has no value. -/
def operate (op : BinaryOp) (live : Bool) (a b : Int64) : Except ConditionError Int64 :=
  match op.eval? a b with
  | some value => .ok value
  | none => if live then .error .divisionByZero else .ok 0

mutual

/-- Reads a conditional expression. -/
def readConditional (live : Bool) (ts : List Token) :
    Except ConditionError (Reading ts.length) := do
  let test ← readBinary 1 live ts
  match hq : test.rest with
  | [] => return test
  | mark :: afterMark =>
    if mark.isPunctuator "?" then
      have h₁ : afterMark.length < ts.length := test.length_lt hq
      let yes ← readConditional (live && test.value ≠ 0) afterMark
      match hc : yes.rest with
      | [] => throw .unexpectedEnd
      | colon :: afterColon =>
        if colon.isPunctuator ":" then
          have h₂ : afterColon.length < ts.length := Nat.lt_trans (yes.length_lt hc) h₁
          let no ← readConditional (live && test.value = 0) afterColon
          return (no.withValue (if test.value ≠ 0 then yes.value else no.value)).widen
            (Nat.le_of_lt h₂)
        else throw (.unexpected colon.text)
    else return test
termination_by (ts.length, 3)

/-- Reads an operand, and the operators that follow it and bind at least as tightly as `least`. -/
def readBinary (least : Nat) (live : Bool) (ts : List Token) :
    Except ConditionError (Reading ts.length) := do
  let left ← readUnary live ts
  have := left.shorter
  let all ← climb least live left.value left.rest
  return all.widen left.shorter
termination_by (ts.length, 2)

/-- Goes on from a left operand with the operators that bind at least as tightly as `least`. -/
def climb (least : Nat) (live : Bool) (left : Int64) (ts : List Token) :
    Except ConditionError (Reading (ts.length + 1)) :=
  match ts with
  | [] => return ⟨left, [], Nat.lt_succ_self _⟩
  | t :: rest =>
    match BinaryOp.ofToken? t with
    | none => return ⟨left, t :: rest, Nat.lt_succ_self _⟩
    | some op =>
      if op.precedence < least then return ⟨left, t :: rest, Nat.lt_succ_self _⟩
      else do
        let right ← readBinary (op.precedence + 1) (live && op.needsRight left) rest
        have h : right.rest.length < rest.length := right.shorter
        let value ← operate op live left right.value
        let all ← climb least live value right.rest
        return all.widen (Nat.le_succ_of_le (Nat.le_succ_of_le h))
termination_by (ts.length, 1)

/-- Reads a constant, a name, a parenthesised expression, or a prefix operator and its operand. -/
def readUnary (live : Bool) (ts : List Token) : Except ConditionError (Reading ts.length) :=
  match ts with
  | [] => throw .unexpectedEnd
  | t :: rest =>
    match t.kind with
    | .number =>
      match constantValue? t.text with
      | some value => return ⟨value, rest, Nat.lt_succ_self _⟩
      | none => throw (.badConstant t.text)
    | .identifier => return ⟨0, rest, Nat.lt_succ_self _⟩
    | .punctuator =>
      if t.isPunctuator "(" then do
        let inner ← readConditional live rest
        match hc : inner.rest with
        | [] => throw .unexpectedEnd
        | close :: after =>
          if close.isPunctuator ")" then
            return ⟨inner.value, after, Nat.lt_succ_of_lt (inner.length_lt hc)⟩
          else throw (.unexpected close.text)
      else
        match UnaryOp.ofToken? t with
        | some op => do
          let operand ← readUnary live rest
          return (operand.withValue (op.eval operand.value)).widen (Nat.le_succ _)
        | none => throw (.unexpected t.text)
    | .literal | .space => throw (.unexpected t.text)
termination_by (ts.length, 0)

end

/-- The value of a condition. -/
def evaluate (ts : List Token) : Except ConditionError Int64 :=
  match ts.filter fun t => !t.isSpace with
  | [] => .error .empty
  | t :: rest => do
    let r ← readConditional true (t :: rest)
    match r.rest with
    | [] => return r.value
    | extra :: _ => throw (.unexpected extra.text)

end Preprocess
end ShaderKit
