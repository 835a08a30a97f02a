import ShaderKit.Bytecode.Word

/-!
# Reading under guard

The readers of bytecode look at lists and count without bound.  A machine does neither: an index can
lie outside of its array, and a sum can be too great for its word.  Here are the operations of such
a machine.  Each says what it does at its limits, and a step that must not happen is a `Trap`, which
no reader can catch.

Two kinds of limit occur.  Instructions are counted in a word (`wordLimit`); lengths, offsets and
positions are sizes (`sizeLimit`).  Where the machine is written to go on at a limit, it saturates
or gives no sum at all, and there is no trap: `saturatingAdd` and `checkedAdd?` are functions like
any other.  What is left are the plain operations, and those are the ones that can be trapped.

A guarded reader `Yields` the result of a reader if it comes to the same value or to the same error,
and is not trapped on the way.  This is proved along the reader: there is a lemma for each
operation, which asks for what the operation needs, and one to put steps together (`Yields.bind`).
What an operation needs is a fact about the numbers in front of it, and it has to come from what has
been read so far.  So `Yields.bind` hands the value of the first step on only if the reader without
guards has come to that value too.

A trap is not an error.  `attempt` gives the error of a part to the whole, as readers do that go on
after one, but not a trap: a reading that yields anything has met none, in whatever part of it.
-/

set_option autoImplicit false

namespace ShaderKit
namespace Bytecode

/-- What must not happen. -/
inductive Trap where
  /-- An index or a slice is not inside of what it is taken from. -/
  | outOfRange
  /-- A number does not fit its word. -/
  | overflow
  /-- A round of a loop does not get on, or there are more rounds than there can be. -/
  | stalled
  deriving DecidableEq, Repr

/-- A reading that comes to a value or an error, unless it is trapped. -/
abbrev Guarded (ε α : Type) : Type := ExceptT ε (Except Trap) α

namespace Guarded

variable {ε ε' α β : Type}

/-- The reading ends here, and nothing that follows can undo it. -/
def trap (t : Trap) : Guarded ε α := ExceptT.mk (.error t)

/-- The result of a part, its error included. -/
def attempt (x : Guarded ε α) : Guarded ε' (Except ε α) :=
  ExceptT.mk (x.run.map Except.ok)

/-! ## Numbers -/

/-- The numbers of 32 bits are those below. -/
def wordLimit : Nat := 0x100000000

/-- The numbers of 64 bits are those below. -/
def sizeLimit : Nat := 0x10000000000000000

/-- A number that has to fit. -/
def fitting (limit n : Nat) : Guarded ε Nat := if n < limit then pure n else trap .overflow

/-- A sum of words. -/
def addWord (a b : Nat) : Guarded ε Nat := fitting wordLimit (a + b)

/-- A sum of sizes. -/
def addSize (a b : Nat) : Guarded ε Nat := fitting sizeLimit (a + b)

/-- A product of sizes. -/
def mulSize (a b : Nat) : Guarded ε Nat := fitting sizeLimit (a * b)

/-- A difference, which must not be below zero. -/
def subtract (a b : Nat) : Guarded ε Nat := if b ≤ a then pure (a - b) else trap .overflow

/-- The sum or the greatest number. -/
def saturatingAdd (a b : Nat) : Nat := min (a + b) (sizeLimit - 1)

/-- The product or the greatest number. -/
def saturatingMul (a b : Nat) : Nat := min (a * b) (sizeLimit - 1)

/-- The sum, if it fits. -/
def checkedAdd? (a b : Nat) : Option Nat := if a + b < sizeLimit then some (a + b) else none

/-- The product, if it fits. -/
def checkedMul? (a b : Nat) : Option Nat := if a * b < sizeLimit then some (a * b) else none

/-! ## Parts of lists -/

/-- The item at an index. -/
def item (l : List α) (i : Nat) : Guarded ε α :=
  match l[i]? with
  | some a => pure a
  | none => trap .outOfRange

/-- The items from `start` on that lie before `stop`, if the list has them. -/
def slice? (l : List α) (start stop : Nat) : Option (List α) :=
  if start ≤ stop ∧ stop ≤ l.length then some ((l.take stop).drop start) else none

/-- The items from `start` on that lie before `stop`. -/
def slice (l : List α) (start stop : Nat) : Guarded ε (List α) :=
  match slice? l start stop with
  | some part => pure part
  | none => trap .outOfRange

/-- The word that the first four bytes spell. -/
def wordOf (bytes : List UInt8) : Guarded ε UInt32 := do
  return wordOfBytes (← item bytes 0) (← item bytes 1) (← item bytes 2) (← item bytes 3)

/-- The half word that the first two bytes spell. -/
def halfWordOf (bytes : List UInt8) : Guarded ε Nat := do
  return (← item bytes 0).toNat + 256 * (← item bytes 1).toNat

/-! ## What a guarded reading yields -/

/-- The reading comes to the given result, and is not trapped. -/
def Yields (x : Guarded ε α) (y : Except ε α) : Prop := x = ExceptT.mk (.ok y)

theorem yields_pure (a : α) : Yields (pure a : Guarded ε α) (.ok a) := rfl

theorem yields_throw (e : ε) : Yields (throw e : Guarded ε α) (.error e) := rfl

theorem Yields.bind_ok {x : Guarded ε α} {f : α → Guarded ε β} {a : α} {y : Except ε β}
    (hx : Yields x (.ok a)) (hf : Yields (f a) y) : Yields (x >>= f) y := by
  rw [Yields] at hx
  rw [hx]
  exact hf

/-- What follows an error is not done. -/
theorem Yields.bind_error {x : Guarded ε α} {f : α → Guarded ε β} {e : ε}
    (hx : Yields x (.error e)) : Yields (x >>= f) (.error e) := by
  rw [Yields] at hx
  rw [hx]
  rfl

/-- One step after another. -/
theorem Yields.bind {x : Guarded ε α} {y : Except ε α} {f : α → Guarded ε β} {g : α → Except ε β}
    (hx : Yields x y) (hf : ∀ a, y = .ok a → Yields (f a) (g a)) : Yields (x >>= f) (y >>= g) := by
  cases y with
  | error e => exact hx.bind_error
  | ok a => exact hx.bind_ok (hf a rfl)

/-- The result of a part is the value of the attempt, whatever it is. -/
theorem Yields.attempt {x : Guarded ε α} {y : Except ε α} (hx : Yields x y) :
    Yields (attempt x : Guarded ε' (Except ε α)) (.ok y) := by
  rw [Yields] at hx
  rw [hx]
  rfl

/-- A step that is taken for each item, and never fails. -/
theorem yields_mapM {f : α → Guarded ε β} {g : α → β} {l : List α}
    (h : ∀ a ∈ l, Yields (f a) (.ok (g a))) : Yields (l.mapM f) (.ok (l.map g)) := by
  induction l with
  | nil => exact yields_pure []
  | cons a l ih =>
    obtain ⟨ha, hl⟩ := List.forall_mem_cons.1 h
    rw [List.mapM_cons]
    exact ha.bind_ok ((ih hl).bind_ok (yields_pure _))

theorem yields_fitting {limit n : Nat} (h : n < limit) :
    Yields (fitting limit n : Guarded ε Nat) (.ok n) := by
  rw [fitting, if_pos h]
  rfl

theorem yields_subtract {a b : Nat} (h : b ≤ a) :
    Yields (subtract a b : Guarded ε Nat) (.ok (a - b)) := by
  rw [subtract, if_pos h]
  rfl

theorem yields_item {l : List α} {i : Nat} {a : α} (h : l[i]? = some a) :
    Yields (item l i : Guarded ε α) (.ok a) := by
  rw [item, h]
  rfl

/-- A slice is there if its ends are in order and inside of the list. -/
theorem slice?_of_le {l : List α} {start stop : Nat} (hstart : start ≤ stop)
    (hstop : stop ≤ l.length) : slice? l start stop = some ((l.take stop).drop start) :=
  if_pos ⟨hstart, hstop⟩

theorem yields_slice {l : List α} {start stop : Nat} (hstart : start ≤ stop)
    (hstop : stop ≤ l.length) :
    Yields (slice l start stop : Guarded ε (List α)) (.ok ((l.take stop).drop start)) := by
  rw [slice, slice?_of_le hstart hstop]
  rfl

theorem saturatingAdd_of_lt {a b : Nat} (h : a + b < sizeLimit) : saturatingAdd a b = a + b := by
  rw [saturatingAdd]
  omega

theorem saturatingMul_of_lt {a b : Nat} (h : a * b < sizeLimit) : saturatingMul a b = a * b := by
  rw [saturatingMul]
  omega

/-- Four bytes are enough for a word. -/
theorem yields_wordOf {bytes : List UInt8} (h : bytes.length = 4) :
    Yields (wordOf bytes : Guarded ε UInt32) (.ok (wordAt bytes 0)) := by
  match bytes, h with
  | [_, _, _, _], _ => rfl

theorem yields_halfWordOf {bytes : List UInt8} (h : bytes.length = 2) :
    Yields (halfWordOf bytes : Guarded ε Nat) (.ok (halfWordAt bytes 0)) := by
  match bytes, h with
  | [_, _], _ => rfl

end Guarded
end Bytecode
end ShaderKit
