/-!
# Words and bytes

Bytecode is a sequence of 32-bit words, low byte first.  `words?` cuts bytes into words and refuses
a length that is no multiple of four; `bytesOfWords` is the way back, and `words?_bytesOfWords` says
so.  `word` and `halfWord` read a number at an offset of a longer table; what lies outside the table
reads as zero, so whoever cares has to have asked for the length before.

`splitOff?` takes an exact number of items off a list, or nothing if there are not that many.  It
never looks at more of the list than it takes.
-/

set_option autoImplicit false

namespace ShaderKit
namespace Bytecode

/-- The word that four bytes spell. -/
def wordOfBytes (a b c d : UInt8) : UInt32 :=
  a.toUInt32 ||| (b.toUInt32 <<< 8) ||| (c.toUInt32 <<< 16) ||| (d.toUInt32 <<< 24)

/-- The words that bytes spell, if they come in fours. -/
def words? : List UInt8 → Option (List UInt32)
  | [] => some []
  | a :: b :: c :: d :: bytes => (words? bytes).map (wordOfBytes a b c d :: ·)
  | _ => none

/-- The four bytes of a word. -/
def bytesOfWord (w : UInt32) : List UInt8 :=
  [w.toUInt8, (w >>> 8).toUInt8, (w >>> 16).toUInt8, (w >>> 24).toUInt8]

/-- The bytes of words. -/
def bytesOfWords (ws : List UInt32) : List UInt8 := ws.flatMap bytesOfWord

theorem wordOfBytes_bytesOfWord (w : UInt32) :
    wordOfBytes w.toUInt8 (w >>> 8).toUInt8 (w >>> 16).toUInt8 (w >>> 24).toUInt8 = w := by
  apply UInt32.eq_of_toBitVec_eq
  simp only [wordOfBytes, UInt32.toBitVec_or, UInt32.toBitVec_shiftLeft, UInt8.toBitVec_toUInt32,
    UInt32.toBitVec_toUInt8, UInt32.toBitVec_shiftRight]
  generalize w.toBitVec = v
  refine BitVec.eq_of_getLsbD_eq fun i hi => ?_
  by_cases h8 : i < 8
  · simp [hi, h8, show i < 16 by omega, show i < 24 by omega]
  by_cases h16 : i < 16
  · simp [hi, h8, h16, show i < 24 by omega, show i - 8 < 8 by omega, show 8 + (i - 8) = i by omega]
  by_cases h24 : i < 24
  · simp [hi, h8, h16, h24, show ¬ i - 8 < 8 by omega, show i - 16 < 8 by omega,
      show 16 + (i - 16) = i by omega]
  · simp [hi, h8, h16, h24, show ¬ i - 8 < 8 by omega, show ¬ i - 16 < 8 by omega,
      show i - 24 < 8 by omega, show 24 + (i - 24) = i by omega]

theorem words?_bytesOfWords (ws : List UInt32) : words? (bytesOfWords ws) = some ws := by
  induction ws with
  | nil => rfl
  | cons w ws ih =>
    have : bytesOfWords (w :: ws) = bytesOfWord w ++ bytesOfWords ws := rfl
    simp [this, bytesOfWord, words?, ih, wordOfBytes_bytesOfWord]

/-- The word at an offset of a table. -/
def wordAt (bytes : List UInt8) (offset : Nat) : UInt32 :=
  let tail := bytes.drop offset
  wordOfBytes (tail.getD 0 0) (tail.getD 1 0) (tail.getD 2 0) (tail.getD 3 0)

/-- The half word at an offset of a table. -/
def halfWordAt (bytes : List UInt8) (offset : Nat) : Nat :=
  let tail := bytes.drop offset
  (tail.getD 0 0).toNat + 256 * (tail.getD 1 0).toNat

/-- The first `n` items of a list and the rest, if there are that many. -/
def splitOff? {α : Type} : Nat → List α → Option (List α × List α)
  | 0, l => some ([], l)
  | _ + 1, [] => none
  | n + 1, a :: l => (splitOff? n l).map fun p => (a :: p.1, p.2)

theorem splitOff?_eq_some_iff {α : Type} {n : Nat} {l taken rest : List α} :
    splitOff? n l = some (taken, rest) ↔ l = taken ++ rest ∧ taken.length = n := by
  induction n generalizing l taken with
  | zero =>
    simp only [splitOff?, Option.some.injEq, Prod.mk.injEq, List.length_eq_zero_iff]
    constructor
    · rintro ⟨rfl, rfl⟩; simp
    · rintro ⟨rfl, rfl⟩; simp
  | succ n ih =>
    cases l with
    | nil =>
      simp only [splitOff?, reduceCtorEq, false_iff]
      rintro ⟨h, hl⟩
      have : taken = [] := (List.append_eq_nil_iff.1 h.symm).1
      simp [this] at hl
    | cons a l =>
      simp only [splitOff?, Option.map_eq_some_iff, Prod.mk.injEq, Prod.exists]
      constructor
      · rintro ⟨t, r, h, rfl, rfl⟩
        obtain ⟨rfl, rfl⟩ := ih.1 h
        simp
      · rintro ⟨h, hl⟩
        cases taken with
        | nil => simp at hl
        | cons b taken =>
          simp only [List.cons_append, List.cons.injEq, List.length_cons,
            Nat.add_right_cancel_iff] at h hl
          obtain ⟨rfl, rfl⟩ := h
          exact ⟨taken, rest, ih.2 ⟨rfl, hl⟩, rfl, rfl⟩

theorem length_le_of_splitOff? {α : Type} {n : Nat} {l : List α} {p : List α × List α}
    (h : splitOff? n l = some p) : p.2.length ≤ l.length := by
  rw [(splitOff?_eq_some_iff.1 h).1]; simp

end Bytecode
end ShaderKit
