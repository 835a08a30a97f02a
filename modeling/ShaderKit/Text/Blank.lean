/-!
# Blanks

What counts as white space, and the three things done with it: trimming, taking the first word,
and cutting a text at the first occurrence of a character.

White space is the Unicode property `White_Space`, twenty-five characters in ten ranges.  Core's
`Char.isWhitespace` knows only the six of them that are usual in ASCII sources, so the table is
spelled out here; `isBlank_of_isWhitespace` says that nothing of core's is lost.

Texts are lists of characters throughout the preprocessor: every function on them is a recursion
on the list, and a law about a text is an induction on it.
-/

set_option autoImplicit false

namespace ShaderKit
namespace Text

/-- The ranges of the property `White_Space`, ends included, in ascending order. -/
def blankRanges : List (Nat × Nat) :=
  [(0x09, 0x0D), (0x20, 0x20), (0x85, 0x85), (0xA0, 0xA0), (0x1680, 0x1680), (0x2000, 0x200A),
   (0x2028, 0x2029), (0x202F, 0x202F), (0x205F, 0x205F), (0x3000, 0x3000)]

/-- Whether a character is white space. -/
def isBlank (c : Char) : Bool :=
  blankRanges.any fun r => r.1 ≤ c.toNat && c.toNat ≤ r.2

theorem isBlank_of_isWhitespace {c : Char} (h : c.isWhitespace = true) : isBlank c = true := by
  simp only [Char.isWhitespace, Bool.or_eq_true, decide_eq_true_eq] at h
  rcases h with ((rfl | rfl) | rfl) | rfl <;> decide

/-- The text without the blanks in front. -/
def trimStart (s : List Char) : List Char := s.dropWhile isBlank

/-- The text without the blanks at the end. -/
def trimEnd (s : List Char) : List Char := (s.reverse.dropWhile isBlank).reverse

/-- The text without the blanks on either side. -/
def trim (s : List Char) : List Char := trimEnd (trimStart s)

/-- The characters up to the first blank, blanks in front skipped; empty if there are only
blanks. -/
def firstWord (s : List Char) : List Char := (trimStart s).takeWhile fun c => !isBlank c

/-- The parts before and after the first `c`, or `none` if there is no `c`. -/
def cutAt? (c : Char) : List Char → Option (List Char × List Char)
  | [] => none
  | d :: s =>
    if d = c then some ([], s)
    else (cutAt? c s).map fun p => (d :: p.1, p.2)

theorem eq_append_of_cutAt? {c : Char} {s : List Char} {p : List Char × List Char}
    (h : cutAt? c s = some p) : s = p.1 ++ c :: p.2 ∧ c ∉ p.1 := by
  induction s generalizing p with
  | nil => simp [cutAt?] at h
  | cons d s ih =>
    rw [cutAt?] at h
    split at h
    · next hd => cases h; simp [hd]
    · next hd =>
      obtain ⟨q, hq, rfl⟩ := Option.map_eq_some_iff.1 h
      obtain ⟨hs, hc⟩ := ih hq
      exact ⟨by simp [hs], by simp [hc, Ne.symm hd]⟩

theorem cutAt?_append {c : Char} {text : List Char} (h : c ∉ text) (rest : List Char) :
    cutAt? c (text ++ c :: rest) = some (text, rest) := by
  induction text with
  | nil => simp [cutAt?]
  | cons d text ih =>
    rw [List.mem_cons, not_or] at h
    rw [List.cons_append, cutAt?, if_neg (Ne.symm h.1), ih h.2]
    rfl

/-- The pieces between the occurrences of `c`: always at least one, and one more than there are
occurrences. -/
def splitOn (c : Char) : List Char → List (List Char)
  | [] => [[]]
  | d :: s =>
    if d = c then [] :: splitOn c s
    else
      match splitOn c s with
      | [] => [[d]]
      | piece :: pieces => (d :: piece) :: pieces

theorem splitOn_ne_nil (c : Char) (s : List Char) : splitOn c s ≠ [] := by
  cases s with
  | nil => exact List.cons_ne_nil _ _
  | cons d s =>
    rw [splitOn]
    split
    · exact List.cons_ne_nil _ _
    · split <;> exact List.cons_ne_nil _ _

theorem splitOn_of_not_mem {c : Char} {s : List Char} (h : c ∉ s) : splitOn c s = [s] := by
  induction s with
  | nil => rfl
  | cons d s ih =>
    rw [List.mem_cons, not_or] at h
    rw [splitOn, if_neg (Ne.symm h.1), ih h.2]

theorem splitOn_append_cons (c : Char) (s t : List Char) :
    splitOn c (s ++ c :: t) = splitOn c s ++ splitOn c t := by
  induction s with
  | nil => simp [splitOn]
  | cons d s ih =>
    rw [List.cons_append, splitOn, splitOn]
    split
    · rw [ih, List.cons_append]
    · obtain ⟨piece, pieces, hpieces⟩ := List.exists_cons_of_ne_nil (splitOn_ne_nil c s)
      rw [ih, hpieces]
      rfl

end Text
end ShaderKit
