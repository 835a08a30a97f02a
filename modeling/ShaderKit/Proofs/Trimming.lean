import Mathlib.Data.List.DropRight
import ShaderKit.Preprocess.CharClass
import ShaderKit.Text.Blank

/-!
# Trimming a text

What is left of a text when the blanks around it are taken off.  Trimming at one end looks at the
characters from that end on, and stops at the first that is not a blank: a text of blanks
(`IsBlankText`) at an end makes no difference (`trimStart_append_of_blank`,
`trimEnd_append_of_blank`), and a text with other characters at both ends (`HasNoBlankEnds`) stays
as it is, whatever blanks are put around it (`HasNoBlankEnds.trim_eq`).

Words are such texts, as a character of a word is never a blank (`isBlank_of_isWordChar`).

`trimEnd` unfolds to `List.rdropWhile`, and what the library knows of that is used here by name.
-/

set_option autoImplicit false

namespace ShaderKit
namespace Text

/-! ## One end -/

theorem trimStart_cons_of_not {c : Char} (h : isBlank c = false) (s : List Char) :
    trimStart (c :: s) = c :: s :=
  List.dropWhile_cons_of_neg (by simp [h])

theorem trimStart_cons_of_blank {c : Char} (h : isBlank c = true) (s : List Char) :
    trimStart (c :: s) = trimStart s :=
  List.dropWhile_cons_of_pos h

theorem trimEnd_concat_of_not {c : Char} (h : isBlank c = false) (s : List Char) :
    trimEnd (s ++ [c]) = s ++ [c] :=
  List.rdropWhile_concat_neg isBlank s c (by simp [h])

theorem trimEnd_concat_of_blank {c : Char} (h : isBlank c = true) (s : List Char) :
    trimEnd (s ++ [c]) = trimEnd s :=
  List.rdropWhile_concat_pos isBlank s c h

theorem trimEnd_trimEnd (s : List Char) : trimEnd (trimEnd s) = trimEnd s :=
  List.rdropWhile_idempotent isBlank s

/-- Trimming at the end goes no further than to a character that is not a blank. -/
theorem trimEnd_append_cons {c : Char} (hc : isBlank c = false) (s t : List Char) :
    trimEnd (s ++ c :: t) = s ++ c :: trimEnd t := by
  induction t using List.reverseRecOn with
  | nil => exact trimEnd_concat_of_not hc s
  | append_singleton t d ih =>
    rw [← List.cons_append, ← List.append_assoc]
    by_cases hd : isBlank d = true
    · rw [trimEnd_concat_of_blank hd, trimEnd_concat_of_blank hd, ih]
    · rw [Bool.not_eq_true] at hd
      rw [trimEnd_concat_of_not hd, trimEnd_concat_of_not hd, List.append_assoc,
        List.cons_append]

theorem trimStart_of_first {s : List Char} (h : s.head?.any isBlank = false) :
    trimStart s = s := by
  cases s with
  | nil => rfl
  | cons c s => exact trimStart_cons_of_not h s

theorem trimEnd_of_last {s : List Char} (h : s.getLast?.any isBlank = false) :
    trimEnd s = s := by
  induction s using List.reverseRecOn with
  | nil => rfl
  | append_singleton s c =>
    rw [List.getLast?_concat] at h
    exact trimEnd_concat_of_not h s

/-! ## Blanks around a text -/

/-- All characters of the text are blanks. -/
def IsBlankText (s : List Char) : Prop := ∀ c ∈ s, isBlank c = true

instance (s : List Char) : Decidable (IsBlankText s) :=
  List.decidableBAll (isBlank · = true) s

/-- The text neither begins nor ends with a blank. -/
structure HasNoBlankEnds (s : List Char) : Prop where
  first : ∃ c rest, s = c :: rest ∧ isBlank c = false
  last : ∃ front c, s = front ++ [c] ∧ isBlank c = false

theorem trimStart_append_of_blank {front : List Char} (h : IsBlankText front) (s : List Char) :
    trimStart (front ++ s) = trimStart s :=
  List.dropWhile_append_of_pos h

theorem trimEnd_append_of_blank {back : List Char} (h : IsBlankText back) (s : List Char) :
    trimEnd (s ++ back) = trimEnd s := by
  have hreverse : ∀ c ∈ back.reverse, isBlank c = true := fun c hc => h c (List.mem_reverse.1 hc)
  rw [trimEnd, List.reverse_append, List.dropWhile_append_of_pos hreverse, trimEnd]

theorem HasNoBlankEnds.trimStart_eq {s : List Char} (h : HasNoBlankEnds s) (back : List Char) :
    trimStart (s ++ back) = s ++ back := by
  obtain ⟨c, rest, rfl, hc⟩ := h.first
  rw [List.cons_append, trimStart_cons_of_not hc]

/-- Blanks put around a text are taken off again. -/
theorem HasNoBlankEnds.trim_eq {s front back : List Char} (h : HasNoBlankEnds s)
    (hfront : IsBlankText front) (hback : IsBlankText back) : trim (front ++ (s ++ back)) = s := by
  obtain ⟨body, c, hs, hc⟩ := h.last
  rw [trim, trimStart_append_of_blank hfront, h.trimStart_eq, trimEnd_append_of_blank hback, hs,
    trimEnd_concat_of_not hc]

theorem trim_of_forall {s : List Char} (h : ∀ c ∈ s, isBlank c = false) : trim s = s := by
  have hfirst : s.head?.any isBlank = false :=
    (Option.any_eq_false _ _).2 fun c hc => h c (List.mem_of_head? hc)
  have hlast : s.getLast?.any isBlank = false :=
    (Option.any_eq_false _ _).2 fun c hc => h c (List.mem_of_getLast? hc)
  rw [trim, trimStart_of_first hfirst, trimEnd_of_last hlast]

/-! ## What is left -/

section Parts

variable (s : List Char)

theorem isInfix_trimStart : trimStart s <:+: s := (List.dropWhile_suffix isBlank).isInfix

theorem isInfix_trimEnd : trimEnd s <:+: s := (List.rdropWhile_prefix isBlank s).isInfix

theorem isInfix_trim : trim s <:+: s := (isInfix_trimEnd (trimStart s)).trans (isInfix_trimStart s)

theorem isInfix_firstWord : firstWord s <:+: s :=
  (List.takeWhile_prefix _).isInfix.trans (isInfix_trimStart s)

end Parts

/-- What is left of a text when blanks are taken off begins with none. -/
theorem isBlank_of_trim_cons {c : Char} {s : List Char} (h : trim (c :: s) = c :: s) :
    isBlank c = false := by
  rw [← Bool.not_eq_true]
  intro hc
  have hlength := (isInfix_trim s).length_le
  rw [trim, trimStart_cons_of_blank hc, ← trim] at h
  rw [h, List.length_cons] at hlength
  omega

/-- Nor does it end with one. -/
theorem isBlank_of_trim_concat {c : Char} {s : List Char} (h : trim (s ++ [c]) = s ++ [c]) :
    isBlank c = false := by
  have hend : trimEnd (s ++ [c]) = s ++ [c] :=
    (congrArg trimEnd h).symm.trans ((trimEnd_trimEnd _).trans h)
  have hlast := List.rdropWhile_eq_self_iff.1 hend (by simp)
  simpa using hlast

end Text

namespace Preprocess

/-! ## Words -/

theorem toNat_of_isWordChar {c : Char} (h : isWordChar c = true) :
    (((65 ≤ c.toNat ∧ c.toNat ≤ 90) ∨ (97 ≤ c.toNat ∧ c.toNat ≤ 122)) ∨
      (48 ≤ c.toNat ∧ c.toNat ≤ 57)) ∨ c = '_' := by
  change (((decide ('A'.val ≤ c.val ∧ c.val ≤ 'Z'.val) ||
    (decide ('a'.val ≤ c.val) && decide (c.val ≤ 'z'.val))) ||
    (decide ('0'.val ≤ c.val) && decide (c.val ≤ '9'.val))) || decide (c = '_')) = true at h
  simp only [Bool.or_eq_true, Bool.and_eq_true, decide_eq_true_eq, UInt32.le_iff_toNat_le] at h
  exact h

theorem isBlank_of_isWordChar {c : Char} (h : isWordChar c = true) : Text.isBlank c = false := by
  simp only [Text.isBlank, Text.blankRanges, List.any_cons, List.any_nil, Bool.or_false,
    Bool.or_eq_false_iff, Bool.and_eq_false_iff, decide_eq_false_iff_not]
  rcases toNat_of_isWordChar h with ((h | h) | h) | rfl
  · omega
  · omega
  · omega
  · decide

theorem isWordChar_of_isBlank {c : Char} (h : Text.isBlank c = true) : isWordChar c = false := by
  by_contra hword
  rw [isBlank_of_isWordChar (by simpa using hword)] at h
  cases h

theorem hasNoBlankEnds_of_isWord {word : List Char} (h : isWord word = true) :
    Text.HasNoBlankEnds word := by
  have hblank : ∀ c ∈ word, Text.isBlank c = false :=
    fun c hc => isBlank_of_isWordChar (isWordChar_of_mem_word h c hc)
  have hne : word ≠ [] := by
    rintro rfl
    cases h
  constructor
  · obtain ⟨c, rest, rfl⟩ := List.exists_cons_of_ne_nil hne
    exact ⟨c, rest, rfl, hblank c (List.mem_cons_self ..)⟩
  · obtain ⟨front, c, hlast⟩ := (List.eq_nil_or_concat word).resolve_left hne
    rw [List.concat_eq_append] at hlast
    exact ⟨front, c, hlast, hblank c (by simp [hlast])⟩

end Preprocess
end ShaderKit
