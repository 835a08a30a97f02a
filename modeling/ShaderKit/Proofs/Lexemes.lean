import Mathlib.Data.List.TakeWhile
import ShaderKit.Preprocess.Expansion

/-!
# Lexemes

Where a token ends is decided by what follows it: the tokenizer takes as much as it can.  A token
that is cut out of a line in this way is a *lexeme*: a line of its text alone is that token again,
and no other (`isLexeme_of_mem_tokenize`).  So the text of a token tells its kind
(`Token.IsLexeme.kind_eq`).

What has to be shown is that each of the ways to count the characters of a token gives the same
number if the line ends where the token does.
-/

set_option autoImplicit false

namespace ShaderKit
namespace Preprocess

/-! ## Characters that belong together -/

theorem take_length_takeWhile (p : Char → Bool) (s : List Char) :
    s.take (s.takeWhile p).length = s.takeWhile p :=
  (List.prefix_iff_eq_take.1 (List.takeWhile_prefix p)).symm

theorem length_takeWhile_take (p : Char → Bool) (s : List Char) :
    ((s.take (s.takeWhile p).length).takeWhile p).length = (s.takeWhile p).length := by
  rw [take_length_takeWhile, List.takeWhile_idem]

theorem numberTail_le (last : Char) (s : List Char) : numberTail last s ≤ s.length := by
  fun_induction numberTail last s with
  | case1 => exact Nat.le_refl 0
  | case2 last c s hmore ih => exact Nat.succ_le_succ ih
  | case3 => exact Nat.zero_le _

theorem literalTail_le (quote : Char) (s : List Char) : literalTail quote s ≤ s.length := by
  fun_induction literalTail quote s with
  | case1 => exact Nat.le_refl 0
  | case2 => exact Nat.le_refl 1
  | case3 c s ih => exact Nat.succ_le_succ (Nat.succ_le_succ ih)
  | case4 s => exact Nat.succ_le_succ (Nat.zero_le _)
  | case5 c s hlast hescape hquote ih => exact Nat.succ_le_succ ih

theorem numberTail_take (last : Char) (s : List Char) :
    numberTail last (s.take (numberTail last s)) = numberTail last s := by
  fun_induction numberTail last s with
  | case1 => rfl
  | case2 last c s hmore ih => simp only [List.take_succ_cons, numberTail, hmore, if_true, ih]
  | case3 => rfl

/-- A character at which neither a last backslash nor an escape begins is no backslash. -/
theorem ne_backslash {c : Char} {s : List Char} (hlast : c = '\\' → s = [] → False)
    (hescape : ∀ d s', c = '\\' → s = d :: s' → False) : c ≠ '\\' := by
  intro hc
  rcases s with _ | ⟨d, s⟩
  · exact hlast hc rfl
  · exact hescape d s hc rfl

theorem literalTail_cons {quote c : Char} (hc : c ≠ '\\') (s : List Char) :
    literalTail quote (c :: s) = if c = quote then 1 else literalTail quote s + 1 := by
  simp [literalTail, hc]

theorem literalTail_take (quote : Char) (s : List Char) :
    literalTail quote (s.take (literalTail quote s)) = literalTail quote s := by
  fun_induction literalTail quote s with
  | case1 => rfl
  | case2 => rfl
  | case3 c s ih => simp only [List.take_succ_cons, literalTail, ih]
  | case4 s hlast hescape =>
    rw [List.take_succ_cons, literalTail_cons (ne_backslash hlast hescape), if_pos rfl]
  | case5 c s hlast hescape hquote ih =>
    rw [List.take_succ_cons, literalTail_cons (ne_backslash hlast hescape), if_neg hquote, ih]

/-! ## Operators -/

theorem pairwise_operators : operators.Pairwise fun op op' => op'.length ≤ op.length := by decide

theorem two_le_length_of_mem_operators : ∀ op ∈ operators, 2 ≤ op.length := by decide

/-- No operator that the line goes on with is longer than the one that is taken. -/
theorem length_le_of_prefix {c : Char} {s op : List Char} (hop : op ∈ operators)
    (hstart : op <+: c :: s) : op.length ≤ operatorTail c s + 1 := by
  rw [operatorTail]
  split
  · rename_i found hfind
    obtain ⟨hfound, before, after, hsplit, hbefore⟩ := List.find?_eq_some_iff_append.1 hfind
    have hle : op.length ≤ found.length := by
      rw [hsplit, List.mem_append, List.mem_cons] at hop
      have hsorted := pairwise_operators
      rw [hsplit, List.pairwise_append, List.pairwise_cons] at hsorted
      rcases hop with hop | rfl | hop
      · have hnot := hbefore op hop
        rw [List.isPrefixOf_iff_prefix.2 hstart] at hnot
        cases hnot
      · exact Nat.le_refl _
      · exact hsorted.2.1.1 op hop
    omega
  · rename_i hnone
    have hnot := List.find?_eq_none.1 hnone op hop
    exact absurd (List.isPrefixOf_iff_prefix.2 hstart) hnot

/-- What is taken beyond the first character is an operator of the line. -/
theorem exists_operator_of_pos {c : Char} {s : List Char} (h : 0 < operatorTail c s) :
    ∃ op ∈ operators, op <+: c :: s ∧ op.length = operatorTail c s + 1 := by
  rw [operatorTail] at h ⊢
  split at h
  · rename_i op hfind
    refine ⟨op, List.mem_of_find?_eq_some hfind, ?_, ?_⟩
    · have hfound := List.find?_some (p := fun op : List Char => op.isPrefixOf (c :: s)) hfind
      exact List.isPrefixOf_iff_prefix.1 hfound
    · have := two_le_length_of_mem_operators op (List.mem_of_find?_eq_some hfind)
      omega
  · omega

theorem operatorTail_le (c : Char) (s : List Char) : operatorTail c s ≤ s.length := by
  rcases Nat.eq_zero_or_pos (operatorTail c s) with hzero | hpos
  · omega
  · obtain ⟨op, -, hstart, hlength⟩ := exists_operator_of_pos hpos
    have hle := hstart.length_le
    rw [List.length_cons] at hle
    omega

/-- In a longer line no less is taken. -/
theorem operatorTail_mono {c : Char} {s s' : List Char} (h : s <+: s') :
    operatorTail c s ≤ operatorTail c s' := by
  rcases Nat.eq_zero_or_pos (operatorTail c s) with hzero | hpos
  · omega
  · obtain ⟨op, hop, hstart, hlength⟩ := exists_operator_of_pos hpos
    have hlonger := length_le_of_prefix hop (hstart.trans (List.cons_prefix_cons.2 ⟨rfl, h⟩))
    omega

theorem operatorTail_take (c : Char) (s : List Char) :
    operatorTail c (s.take (operatorTail c s)) = operatorTail c s := by
  refine Nat.le_antisymm (operatorTail_mono (List.take_prefix _ s)) ?_
  rcases Nat.eq_zero_or_pos (operatorTail c s) with hzero | hpos
  · omega
  · obtain ⟨op, hop, hstart, hlength⟩ := exists_operator_of_pos hpos
    have hkept : op <+: c :: s.take (operatorTail c s) := by
      rw [← List.take_succ_cons, List.prefix_take_iff]
      exact ⟨hstart, by omega⟩
    have := length_le_of_prefix hop hkept
    omega

/-! ## Tokens -/

theorem any_head?_of_take {p : Char → Bool} {n : Nat} {s : List Char}
    (h : (s.take n).head?.any p = true) : s.head?.any p = true := by
  rcases s with _ | ⟨c, s⟩
  · simp at h
  · rcases n with _ | n
    · simp at h
    · exact h

/-- A number that begins with a point keeps the digit behind it. -/
theorem isNumberStart_take {c : Char} {s : List Char}
    (h : (c.isDigit || (c = '.' && s.head?.any Char.isDigit)) = true) :
    (c.isDigit || (c = '.' && (s.take (numberTail c s)).head?.any Char.isDigit)) = true := by
  simp only [Bool.or_eq_true, Bool.and_eq_true] at h ⊢
  refine h.imp_right ?_
  rintro ⟨hpoint, hdigit⟩
  refine ⟨hpoint, ?_⟩
  rcases s with _ | ⟨d, s⟩
  · simp at hdigit
  · have hd : d.isDigit = true := by simpa using hdigit
    simp [numberTail, isWordChar_of_isDigit hd, hd]

/-- A token is as long, and of the same kind, if the line ends where it does. -/
theorem extent_take (c : Char) (s : List Char) :
    extent c (s.take (extent c s).2) = extent c s := by
  by_cases hblank : Text.isBlank c = true
  · simp only [extent, hblank, if_true, length_takeWhile_take]
  by_cases hword : isWordStart c = true
  · simp only [extent, hblank, hword, if_true, if_false, length_takeWhile_take, Bool.false_eq_true]
  by_cases hnumber : (c.isDigit || (c = '.' && s.head?.any Char.isDigit)) = true
  · have hnumber' := isNumberStart_take hnumber
    simp only [extent, hblank, hword, hnumber, hnumber', if_true, if_false, numberTail_take,
      Bool.false_eq_true]
  have hshort (n : Nat) :
      ¬ (c.isDigit || (c = '.' && (s.take n).head?.any Char.isDigit)) = true := by
    intro h
    refine hnumber ?_
    simp only [Bool.or_eq_true, Bool.and_eq_true] at h ⊢
    exact h.imp_right fun h => ⟨h.1, any_head?_of_take h.2⟩
  by_cases hquote : isQuote c = true
  · simp only [extent, hblank, hword, hnumber, hshort, hquote, if_true, if_false, literalTail_take,
      Bool.false_eq_true]
  · simp only [extent, hblank, hword, hnumber, hshort, hquote, if_false, operatorTail_take,
      Bool.false_eq_true]

theorem extent_le (c : Char) (s : List Char) : (extent c s).2 ≤ s.length := by
  rw [extent]
  split
  · exact (List.takeWhile_prefix _).length_le
  split
  · exact (List.takeWhile_prefix _).length_le
  split
  · exact numberTail_le c s
  split
  · exact literalTail_le c s
  · exact operatorTail_le c s

/-- The token is what the tokenizer makes of its text. -/
structure Token.IsLexeme (t : Token) : Prop where
  exists_extent : ∃ c s, t.text = c :: s ∧ extent c s = (t.kind, s.length)

/-- **What is cut out of a line is a lexeme.** -/
theorem isLexeme_of_mem_tokenize {line : List Char} : ∀ t ∈ tokenize line, t.IsLexeme := by
  fun_induction tokenize line with
  | case1 => simp
  | case2 c s kind n hextent ih =>
    refine List.forall_mem_cons.2 ⟨⟨c, s.take n, rfl, ?_⟩, ih⟩
    have htake := extent_take c s
    have hle := extent_le c s
    rw [hextent] at htake hle
    rw [htake, List.length_take_of_le hle]

theorem hidden_of_mem_tokenize {line : List Char} : ∀ t ∈ tokenize line, t.hidden = [] := by
  fun_induction tokenize line with
  | case1 => simp
  | case2 c s kind n hextent ih => exact List.forall_mem_cons.2 ⟨rfl, ih⟩

namespace Token.IsLexeme

variable {t u : Token}

/-- A lexeme alone on a line is that lexeme. -/
theorem tokenize_text (ht : t.IsLexeme) : tokenize t.text = [⟨t.kind, t.text, []⟩] := by
  obtain ⟨c, s, htext, hextent⟩ := ht.exists_extent
  rw [htext, tokenize_cons, hextent, List.take_length, List.drop_length, tokenize_nil]

/-- **The text of a lexeme tells its kind.** -/
theorem kind_eq (ht : t.IsLexeme) (hu : u.IsLexeme) (h : t.text = u.text) : t.kind = u.kind := by
  have htokens : [(⟨t.kind, t.text, []⟩ : Token)] = [⟨u.kind, u.text, []⟩] := by
    rw [← ht.tokenize_text, ← hu.tokenize_text, h]
  simpa using congrArg (List.map Token.kind) htokens

theorem hide (ht : t.IsLexeme) (names : List (List Char)) : (t.hide names).IsLexeme :=
  ⟨ht.exists_extent⟩

end Token.IsLexeme

/-! ## Tables of macros -/

/-- The body is cut out of a line. -/
def Macro.IsTokenized (m : Macro) : Prop := ∃ text, m.body = tokenizeTrimmed text

/-- All bodies are cut out of lines. -/
def MacroTable.IsTokenized (table : MacroTable) : Prop :=
  ∀ name m, table.get? name = some m → m.IsTokenized

theorem Macro.IsTokenized.mem {m : Macro} (h : m.IsTokenized) :
    ∀ t ∈ m.body, t.IsLexeme ∧ t.hidden = [] := by
  obtain ⟨text, hbody⟩ := h
  intro t ht
  rw [hbody] at ht
  have hmem : t ∈ tokenize text := (trimTokens_sublist (tokenize text)).subset ht
  exact ⟨isLexeme_of_mem_tokenize t hmem, hidden_of_mem_tokenize t hmem⟩

namespace MacroTable.IsTokenized

variable {table : MacroTable}

theorem insert (h : table.IsTokenized) {m : Macro} (hm : m.IsTokenized) (name : List Char) :
    (table.insert name m).IsTokenized := by
  intro other found hfound
  rw [get?_insert] at hfound
  split at hfound
  · cases hfound
    exact hm
  · exact h other found hfound

theorem erase (h : table.IsTokenized) (name : List Char) : (table.erase name).IsTokenized := by
  intro other found hfound
  rw [get?_erase] at hfound
  split at hfound
  · cases hfound
  · exact h other found hfound

theorem define? (h : table.IsTokenized) {m : Macro} (hm : m.IsTokenized) {name : List Char}
    {table' : MacroTable} (hdefine : table.define? name m = some table') : table'.IsTokenized := by
  rw [MacroTable.define?] at hdefine
  split at hdefine
  · rw [Option.ite_none_right_eq_some] at hdefine
    obtain ⟨-, hinsert⟩ := hdefine
    cases hinsert
    exact h.insert hm name
  · cases hdefine
    exact h.insert hm name

end MacroTable.IsTokenized

end Preprocess
end ShaderKit
