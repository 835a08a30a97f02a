import Mathlib.Data.List.Chain
import ShaderKit.Proofs.TokenGluing

/-!
# Tokens and the line they are cut from

The tokens of a line are the line, cut into pieces none of which is empty.  Each piece is cut to
itself again, wherever it comes from, so that its text tells its kind.  And the cuts are where they
have to be: behind a token there is none that it would have taken into itself
(`TokenKind.canPrecede`), as a token reaches as far as it can.

The line comes out of an expansion as it is if no macro of the table is named in it
(`tokenize_lossless`).
-/

set_option autoImplicit false

namespace ShaderKit
namespace Preprocess

/-! ## Neighbours -/

namespace TokenKind

/-- The characters that a token of the kind can begin with. -/
def Begins : TokenKind → Char → Prop
  | .space, c => Text.isBlank c = true
  | .identifier, c => isWordStart c = true
  | .number, c => c.isDigit = true ∨ c = '.'
  | .literal, c => isQuote c = true
  | .punctuator, _ => True

/-- Whether a token of the first kind can have one of the second kind right behind it. -/
def canPrecede : TokenKind → TokenKind → Bool
  | .space, next => next ≠ .space
  | .identifier, next => next ≠ .identifier
  | .number, next => next ≠ .identifier && next ≠ .number
  | .literal, _ => true
  | .punctuator, _ => true

end TokenKind

theorem begins_extent (c : Char) (s : List Char) : (extent c s).1.Begins c := by
  rw [extent]
  split
  · assumption
  split
  · assumption
  split
  · rename_i hnumber
    simp only [Bool.or_eq_true, Bool.and_eq_true, decide_eq_true_eq] at hnumber
    exact hnumber.imp_right And.left
  split
  · assumption
  · trivial

/-- What follows a token does not go on with it. -/
theorem runsOn_extent (c : Char) (s : List Char) :
    (Token.mk (extent c s).1 (c :: s.take (extent c s).2) []).runsOn
      (s.drop (extent c s).2) = false := by
  have hglues := glues_tokenize (c :: s)
  rw [tokenize_cons, glues, spelling_tokenize, Bool.or_eq_false_iff] at hglues
  exact hglues.1

/-- Behind a blank token there is no blank. -/
theorem not_isBlank_of_extent_space {c d : Char} {s rest : List Char}
    (hspace : (extent c s).1 = .space) (hrest : s.drop (extent c s).2 = d :: rest) :
    Text.isBlank d = false := by
  rw [extent, if_pos (isBlank_of_extent_space hspace), drop_length_takeWhile] at hrest
  have hhead := List.head?_dropWhile_not Text.isBlank s
  rw [hrest] at hhead
  simpa using hhead

theorem canPrecede_extent {c d : Char} {s rest : List Char}
    (hrest : s.drop (extent c s).2 = d :: rest) :
    (extent c s).1.canPrecede (extent d rest).1 = true := by
  have hstop := runsOn_extent c s
  have hbegins := begins_extent d rest
  rw [hrest] at hstop
  cases hkind : (extent c s).1 with
  | space =>
    refine decide_eq_true fun hnext => ?_
    rw [hnext, TokenKind.Begins, not_isBlank_of_extent_space hkind hrest] at hbegins
    cases hbegins
  | identifier =>
    refine decide_eq_true fun hnext => ?_
    rw [hnext] at hbegins
    rw [hkind] at hstop
    have hword : isWordChar d = false := hstop
    rw [isWordChar_of_isWordStart hbegins] at hword
    cases hword
  | number =>
    rw [hkind] at hstop
    obtain ⟨hword, hpoint⟩ : isWordChar d = false ∧ d ≠ '.' := by
      have hends : continuesNumber _ d = false := hstop
      simp only [continuesNumber, Bool.or_eq_false_iff, decide_eq_false_iff_not] at hends
      exact hends.1
    rw [TokenKind.canPrecede, Bool.and_eq_true]
    refine ⟨decide_eq_true fun hnext => ?_, decide_eq_true fun hnext => ?_⟩
    · rw [hnext] at hbegins
      rw [isWordChar_of_isWordStart hbegins] at hword
      cases hword
    · rw [hnext] at hbegins
      rcases hbegins with hdigit | hd
      · rw [isWordChar_of_isDigit hdigit] at hword
        cases hword
      · exact hpoint hd
  | literal => rfl
  | punctuator => rfl

/-- **The tokens of a line are as few as can be**: none would have taken the next one in. -/
theorem isChain_tokenize (line : List Char) :
    (tokenize line).IsChain fun t u => t.kind.canPrecede u.kind = true := by
  fun_induction tokenize line with
  | case1 => exact .nil
  | case2 c s kind n hextent ih =>
    refine List.isChain_cons.2 ⟨fun u hu => ?_, ih⟩
    rcases hrest : s.drop n with _ | ⟨d, rest⟩
    · rw [hrest, tokenize_nil] at hu
      cases hu
    · rw [hrest, tokenize_cons] at hu
      cases hu
      have hprecede := canPrecede_extent (c := c) (s := s) (by rw [hextent]; exact hrest)
      rwa [hextent] at hprecede

/-! ## Lines without macros -/

theorem Token.IsLexeme.text_ne_nil {t : Token} (ht : t.IsLexeme) : t.text ≠ [] := by
  obtain ⟨c, s, htext, -⟩ := ht.exists_extent
  rw [htext]
  exact List.cons_ne_nil c s

/-- The tokens of a line that names no macro are not expanded. -/
theorem expand_tokenize {table : MacroTable} {line : List Char}
    (h : ∀ t ∈ tokenize line, t.kind = .identifier → table.get? t.text = none) :
    expand table (tokenize line) = .ok (tokenize line) :=
  expand_of_forall fun t ht => macroAt?_eq_none_iff.2 fun hkind => .inl (h t ht hkind)

/-- **Cutting a line into tokens loses nothing, and can be done again.**  The texts of the tokens
are the line, and none is empty.  A token alone on a line is that token, and its kind is that of any
token with the same text.  Neighbours do not go together.  A line that names no macro is put out as
it is. -/
theorem tokenize_lossless (line : List Char) :
    spelling (tokenize line) = line ∧
      (∀ t ∈ tokenize line, t.text ≠ [] ∧ tokenize t.text = [t]) ∧
      ((tokenize line).IsChain fun t u => t.kind.canPrecede u.kind = true) ∧
      (∀ other, ∀ t ∈ tokenize line, ∀ u ∈ tokenize other, t.text = u.text → t.kind = u.kind) ∧
      ∀ (σ : Type) (s : Session σ),
        (∀ t ∈ tokenize line, t.kind = .identifier → s.macros.get? t.text = none) →
        (expand s.macros (tokenize line)).map spelling = .ok line ∧
          runText line s = (s.emit line, none) := by
  refine ⟨spelling_tokenize line, fun t ht => ?_, isChain_tokenize line,
    fun other t ht u hu htext => ?_, fun σ s h => ?_⟩
  · have hlexeme := isLexeme_of_mem_tokenize t ht
    refine ⟨hlexeme.text_ne_nil, ?_⟩
    rw [hlexeme.tokenize_text, ← hidden_of_mem_tokenize t ht]
  · exact (isLexeme_of_mem_tokenize t ht).kind_eq (isLexeme_of_mem_tokenize u hu) htext
  · have hexpand := expand_tokenize h
    constructor
    · rw [hexpand, Except.map, spelling_tokenize]
    · rw [runText, hexpand]
      simp only [spelling_tokenize]

/-- A line in which the name of the macro is only the beginning of another name. -/
theorem tokenize_lossless_longerName :
    (∀ t ∈ tokenize "Mx-.5e-3".toList, t.kind = .identifier →
        minusSession.macros.get? t.text = none) ∧
      runText "Mx-.5e-3".toList minusSession = (minusSession.emit "Mx-.5e-3".toList, none) := by
  have htokens : tokenize "Mx-.5e-3".toList =
      [⟨.identifier, "Mx".toList, []⟩, ⟨.punctuator, ['-'], []⟩,
        ⟨.number, ".5e-3".toList, []⟩] := by decide +kernel
  have hnames : ∀ t ∈ tokenize "Mx-.5e-3".toList, t.kind = .identifier →
      minusSession.macros.get? t.text = none := by
    rw [htokens]
    decide
  exact ⟨hnames, ((tokenize_lossless _).2.2.2.2 Unit minusSession hnames).2⟩

end Preprocess
end ShaderKit
