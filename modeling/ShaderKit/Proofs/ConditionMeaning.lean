import ShaderKit.Preprocess.Condition

/-!
# What a condition means

The value of an expression, said of its tree and on integers, without words, readers or the notion
of a part that is not live: `Condition.value?` looks at the second operand of `&&` and `||`, and at
an arm of a conditional, only when the value depends on it, and has no value where it comes to
divide by zero.

`readConditional` cannot afford to leave anything out, because it has to read on.
`Condition.run` does what it does, on a tree: every part is evaluated, with a flag for those that
cannot matter.  `Condition.map_toInt_run` says that this makes no difference.
-/

set_option autoImplicit false

namespace ShaderKit
namespace Preprocess

/-! ## Operations on integers -/

/-- The number in two's complement with 64 bits that is `n` up to multiples of 2⁶⁴. -/
def wrap (n : Int) : Int := n.bmod 0x10000000000000000

/-- The 64 bits of a number in two's complement. -/
def bits (n : Int) : BitVec 64 := BitVec.ofInt 64 n

/-- The number for a truth. -/
def truthValue (p : Prop) [Decidable p] : Int := if p then 1 else 0

/-- What a prefix operator stands for. -/
def UnaryOp.meaning (op : UnaryOp) (a : Int) : Int :=
  match op with
  | not => truthValue (a = 0)
  | complement => (~~~bits a).toInt
  | negate => wrap (-a)
  | plus => a

/-- What a binary operator stands for, between two values; nothing, for a division by zero. -/
def BinaryOp.meaning? (op : BinaryOp) (a b : Int) : Option Int :=
  match op with
  | or => some (truthValue (a ≠ 0 ∨ b ≠ 0))
  | and => some (truthValue (a ≠ 0 ∧ b ≠ 0))
  | bitOr => some (bits a ||| bits b).toInt
  | bitXor => some (bits a ^^^ bits b).toInt
  | bitAnd => some (bits a &&& bits b).toInt
  | eq => some (truthValue (a = b))
  | ne => some (truthValue (a ≠ b))
  | lt => some (truthValue (a < b))
  | gt => some (truthValue (b < a))
  | le => some (truthValue (a ≤ b))
  | ge => some (truthValue (b ≤ a))
  | shiftLeft => some (wrap (a * Int.pow 2 (b % 64).toNat))
  | shiftRight => some (a / Int.pow 2 (b % 64).toNat)
  | add => some (wrap (a + b))
  | sub => some (wrap (a - b))
  | mul => some (wrap (a * b))
  | div => if b = 0 then none else some (wrap (a.tdiv b))
  | rem => if b = 0 then none else some (a.tmod b)

/-- The value of a binary operation where its first operand alone decides it. -/
def BinaryOp.shortcut? (op : BinaryOp) (a : Int) : Option Int :=
  match op with
  | or => if a = 0 then none else some 1
  | and => if a = 0 then some 0 else none
  | _ => none

/-! ## Words are integers -/

theorem toInt_eq_zero_iff {a : Int64} : a.toInt = 0 ↔ a = 0 := by
  rw [← Int64.toInt_inj, Int64.toInt_zero]

theorem toInt_truth {b : Bool} {p : Prop} [Decidable p] (h : b = true ↔ p) :
    (truth b).toInt = truthValue p := by
  rw [truth, truthValue]
  by_cases hp : p
  · rw [if_pos hp, if_pos (h.2 hp), Int64.toInt_one]
  · rw [if_neg hp, if_neg (mt h.1 hp), Int64.toInt_zero]

theorem bits_toInt (a : Int64) : bits a.toInt = a.toBitVec := by
  rw [bits, ← Int64.toInt_toBitVec, BitVec.ofInt_toInt]

/-- The amount of a shift is the amount modulo 64, for negative amounts too. -/
theorem toNat_smod_64 (b : Int64) : (b.toBitVec.smod 64).toNat = (b.toInt % 64).toNat := by
  have hint : (b.toBitVec.smod 64).toInt = b.toInt % 64 := by
    rw [BitVec.toInt_smod, Int64.toInt_toBitVec]
    exact Int.fmod_eq_emod_of_nonneg _ (by decide)
  have hmsb : (b.toBitVec.smod 64).msb = false := by
    rw [BitVec.msb_eq_toInt, hint, decide_eq_false_iff_not]
    omega
  rw [← hint, BitVec.toInt_eq_toNat_of_msb hmsb, Int.toNat_natCast]

theorem toInt_shiftLeft (a b : Int64) :
    (a <<< b).toInt = wrap (a.toInt * Int.pow 2 (b.toInt % 64).toNat) := by
  rw [← Int64.toInt_toBitVec, Int64.toBitVec_shiftLeft, BitVec.shiftLeft_eq', toNat_smod_64,
    BitVec.toInt_shiftLeft, Nat.shiftLeft_eq, ← Int64.toInt_toBitVec a,
    BitVec.toInt_eq_toNat_bmod a.toBitVec, wrap, Int.bmod_mul_bmod]
  push_cast
  rfl

theorem toInt_shiftRight (a b : Int64) :
    (a >>> b).toInt = a.toInt / Int.pow 2 (b.toInt % 64).toNat := by
  rw [← Int64.toInt_toBitVec, Int64.toBitVec_shiftRight, BitVec.toInt_sshiftRight', toNat_smod_64,
    Int.shiftRight_eq_div_pow, Int64.toInt_toBitVec]
  rfl

theorem UnaryOp.toInt_eval (op : UnaryOp) (a : Int64) : (op.eval a).toInt = op.meaning a.toInt := by
  cases op with
  | not => exact toInt_truth (by rw [decide_eq_true_eq, toInt_eq_zero_iff])
  | complement => rw [eval, meaning, bits_toInt, ← Int64.toBitVec_not, Int64.toInt_toBitVec]
  | negate => rw [eval, meaning, wrap, Int64.toInt_neg]
  | plus => rfl

theorem BinaryOp.map_toInt_eval? (op : BinaryOp) (a b : Int64) :
    (op.eval? a b).map Int64.toInt = op.meaning? a.toInt b.toInt := by
  have hdiv {q : Int64} {n : Int} (h : q.toInt = n) :
      (if b = 0 then none else some q).map Int64.toInt = if b.toInt = 0 then none else some n := by
    by_cases hb : b = 0
    · rw [if_pos hb, if_pos (toInt_eq_zero_iff.2 hb), Option.map_none]
    · rw [if_neg hb, if_neg (mt toInt_eq_zero_iff.1 hb), Option.map_some, h]
  cases op with
  | or => exact congrArg some (toInt_truth (by simp [toInt_eq_zero_iff]))
  | and => exact congrArg some (toInt_truth (by simp [toInt_eq_zero_iff]))
  | eq => exact congrArg some (toInt_truth (by rw [decide_eq_true_eq, Int64.toInt_inj]))
  | ne =>
    exact congrArg some (toInt_truth (by rw [decide_eq_true_eq, ne_eq, ne_eq, Int64.toInt_inj]))
  | lt => exact congrArg some (toInt_truth (by rw [decide_eq_true_eq, Int64.lt_iff_toInt_lt]))
  | gt =>
    exact congrArg some (toInt_truth (by rw [decide_eq_true_eq, gt_iff_lt, Int64.lt_iff_toInt_lt]))
  | le => exact congrArg some (toInt_truth (by rw [decide_eq_true_eq, Int64.le_iff_toInt_le]))
  | ge =>
    exact congrArg some (toInt_truth (by rw [decide_eq_true_eq, ge_iff_le, Int64.le_iff_toInt_le]))
  | bitOr => rw [eval?, meaning?, bits_toInt, bits_toInt, ← Int64.toBitVec_or]; rfl
  | bitXor => rw [eval?, meaning?, bits_toInt, bits_toInt, ← Int64.toBitVec_xor]; rfl
  | bitAnd => rw [eval?, meaning?, bits_toInt, bits_toInt, ← Int64.toBitVec_and]; rfl
  | shiftLeft => exact congrArg some (toInt_shiftLeft a b)
  | shiftRight => exact congrArg some (toInt_shiftRight a b)
  | add => exact congrArg some (Int64.toInt_add a b)
  | sub => exact congrArg some (Int64.toInt_sub a b)
  | mul => exact congrArg some (Int64.toInt_mul a b)
  | div => exact hdiv (Int64.toInt_div a b)
  | rem => exact hdiv (Int64.toInt_mod a b)

/-- The second operand counts exactly where the first does not decide. -/
theorem BinaryOp.shortcut?_eq_none_iff (op : BinaryOp) (a : Int64) :
    op.shortcut? a.toInt = none ↔ op.needsRight a = true := by
  cases op <;> simp [shortcut?, needsRight, toInt_eq_zero_iff]

/-- Where the first operand decides, it does not matter what stands for the second. -/
theorem BinaryOp.eval?_of_shortcut? {op : BinaryOp} {a : Int64} {n : Int}
    (h : op.shortcut? a.toInt = some n) (b : Int64) : (op.eval? a b).map Int64.toInt = some n := by
  rw [map_toInt_eval?]
  cases op <;> simp_all [shortcut?, meaning?, truthValue]

/-! ## Expressions -/

/-- The expression of a condition, as a tree. -/
inductive Condition where
  | constant (n : Nat)
  /-- A name that is still there after expansion. -/
  | name
  | unary (op : UnaryOp) (operand : Condition)
  | binary (op : BinaryOp) (left right : Condition)
  | conditional (test yes no : Condition)
  deriving DecidableEq, Repr

namespace Condition

/-- **The value of an expression**; there is none where evaluating it, and nothing of it that does
not matter, divides by zero. -/
def value? : Condition → Option Int
  | constant n => some (wrap n)
  | name => some 0
  | unary op operand => do return op.meaning (← operand.value?)
  | binary op left right => do
    let a ← left.value?
    match op.shortcut? a with
    | some n => return n
    | none => op.meaning? a (← right.value?)
  | conditional test yes no => do
    if (← test.value?) ≠ 0 then yes.value? else no.value?

/-- Evaluates all of an expression, the parts that cannot matter as not `live`. -/
def run (live : Bool) : Condition → Except ConditionError Int64
  | constant n => .ok (Int64.ofNat n)
  | name => .ok 0
  | unary op operand => do return op.eval (← operand.run live)
  | binary op left right => do
    let a ← left.run live
    let b ← right.run (live && op.needsRight a)
    operate op live a b
  | conditional test yes no => do
    let v ← test.run live
    let a ← yes.run (live && v ≠ 0)
    let b ← no.run (live && v = 0)
    return if v ≠ 0 then a else b

/-- What has no value is a division by zero. -/
def verdict : Option Int → Except ConditionError Int
  | some n => .ok n
  | none => .error .divisionByZero

theorem exists_operate_false (op : BinaryOp) (a b : Int64) : ∃ v, operate op false a b = .ok v := by
  rw [operate]
  cases op.eval? a b with
  | none => exact ⟨0, rfl⟩
  | some v => exact ⟨v, rfl⟩

/-- Nothing goes wrong in a part that is not live. -/
theorem exists_run_false (e : Condition) : ∃ v, e.run false = .ok v := by
  induction e with
  | constant n => exact ⟨_, rfl⟩
  | name => exact ⟨_, rfl⟩
  | unary op operand ih =>
    obtain ⟨v, hv⟩ := ih
    exact ⟨op.eval v, by rw [run, hv]; rfl⟩
  | binary op left right ihl ihr =>
    obtain ⟨a, ha⟩ := ihl
    obtain ⟨b, hb⟩ := ihr
    obtain ⟨v, hv⟩ := exists_operate_false op a b
    refine ⟨v, ?_⟩
    rw [run, ha, ← hv]
    change (right.run false >>= fun b => operate op false a b) = _
    rw [hb]
    rfl
  | conditional test yes no iht ihy ihn =>
    obtain ⟨v, hv⟩ := iht
    obtain ⟨a, ha⟩ := ihy
    obtain ⟨b, hb⟩ := ihn
    refine ⟨if v ≠ 0 then a else b, ?_⟩
    rw [run, hv]
    change (yes.run false >>= fun a => no.run false >>= fun b => _) = _
    rw [ha, hb]
    rfl

theorem map_toInt_operate (op : BinaryOp) (a b : Int64) :
    (operate op true a b).map Int64.toInt = verdict (op.meaning? a.toInt b.toInt) := by
  rw [← BinaryOp.map_toInt_eval?, operate]
  cases op.eval? a b with
  | none => rfl
  | some v => rfl

/-- A result that agrees with a value is that value, or a division by zero where there is none. -/
theorem eq_ok_or_eq_error {r : Except ConditionError Int64} {n? : Option Int}
    (h : r.map Int64.toInt = verdict n?) :
    (∃ v, r = .ok v ∧ n? = some v.toInt) ∨ (r = .error .divisionByZero ∧ n? = none) := by
  cases n? with
  | none =>
    cases r with
    | ok v => cases h
    | error e => cases h; exact Or.inr ⟨rfl, rfl⟩
  | some n =>
    cases r with
    | ok v => cases h; exact Or.inl ⟨v, rfl, rfl⟩
    | error e => cases h

theorem map_toInt_run_binary {op : BinaryOp} {left right : Condition}
    (ihl : (left.run true).map Int64.toInt = verdict left.value?)
    (ihr : (right.run true).map Int64.toInt = verdict right.value?) :
    ((binary op left right).run true).map Int64.toInt = verdict (binary op left right).value? := by
  rcases eq_ok_or_eq_error ihl with ⟨a, hrun, hvalue⟩ | ⟨hrun, hvalue⟩
  · have hr : (binary op left right).run true =
        right.run (op.needsRight a) >>= fun b => operate op true a b := by rw [run, hrun]; rfl
    have hv : (binary op left right).value? =
        match op.shortcut? a.toInt with
        | some n => some n
        | none => right.value? >>= fun b => op.meaning? a.toInt b := by rw [value?, hvalue]; rfl
    rw [hr, hv]
    cases hs : op.shortcut? a.toInt with
    | some n =>
      have hdead : op.needsRight a = false := by
        rw [← Bool.not_eq_true, ← BinaryOp.shortcut?_eq_none_iff, hs]
        exact nofun
      obtain ⟨b, hb⟩ := exists_run_false right
      have hop := BinaryOp.eval?_of_shortcut? hs b
      rw [BinaryOp.map_toInt_eval?] at hop
      rw [hdead, hb]
      change (operate op true a b).map Int64.toInt = _
      rw [map_toInt_operate, hop]
    | none =>
      rw [(BinaryOp.shortcut?_eq_none_iff op a).1 hs]
      rcases eq_ok_or_eq_error ihr with ⟨b, hrun, hvalue⟩ | ⟨hrun, hvalue⟩
      · rw [hrun, hvalue]
        exact map_toInt_operate op a b
      · rw [hrun, hvalue]
        rfl
  · rw [run, value?, hrun, hvalue]
    rfl

theorem map_toInt_run_conditional {test yes no : Condition}
    (iht : (test.run true).map Int64.toInt = verdict test.value?)
    (ihy : (yes.run true).map Int64.toInt = verdict yes.value?)
    (ihn : (no.run true).map Int64.toInt = verdict no.value?) :
    ((conditional test yes no).run true).map Int64.toInt =
      verdict (conditional test yes no).value? := by
  rcases eq_ok_or_eq_error iht with ⟨v, hrun, hvalue⟩ | ⟨hrun, hvalue⟩
  · have hr : (conditional test yes no).run true =
        yes.run (v ≠ 0) >>= fun a => no.run (v = 0) >>= fun b => .ok (if v ≠ 0 then a else b) := by
      rw [run, hrun]
      rfl
    have hv : (conditional test yes no).value? = if v.toInt ≠ 0 then yes.value? else no.value? := by
      rw [value?, hvalue]
      rfl
    rw [hr, hv]
    by_cases hzero : v = 0
    · obtain ⟨a, ha⟩ := exists_run_false yes
      rw [if_neg (not_not_intro (toInt_eq_zero_iff.2 hzero)), decide_eq_false (not_not_intro hzero),
        decide_eq_true hzero, ha, ← ihn]
      change Except.map _ (no.run true >>= _) = _
      cases no.run true with
      | ok b => simp [hzero, bind, Except.bind]
      | error e => rfl
    · obtain ⟨b, hb⟩ := exists_run_false no
      rw [if_pos (mt toInt_eq_zero_iff.1 hzero), decide_eq_true hzero, decide_eq_false hzero, hb,
        ← ihy]
      cases yes.run true with
      | ok a => simp [hzero, bind, Except.bind]
      | error e => rfl
  · rw [run, value?, hrun, hvalue]
    rfl

/-- **Evaluating all of it comes to the same.** -/
theorem map_toInt_run (e : Condition) : (e.run true).map Int64.toInt = verdict e.value? := by
  induction e with
  | constant n => exact congrArg Except.ok Int64.toInt_ofNat'
  | name => rfl
  | unary op operand ih =>
    rw [run, value?]
    rcases eq_ok_or_eq_error ih with ⟨v, hrun, hvalue⟩ | ⟨hrun, hvalue⟩
    · rw [hrun, hvalue]
      exact congrArg Except.ok (op.toInt_eval v)
    · rw [hrun, hvalue]
      rfl
  | binary op left right ihl ihr => exact map_toInt_run_binary ihl ihr
  | conditional test yes no iht ihy ihn => exact map_toInt_run_conditional iht ihy ihn

end Condition
end Preprocess
end ShaderKit
