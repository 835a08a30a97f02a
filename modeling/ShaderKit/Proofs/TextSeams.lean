import ShaderKit.Proofs.FileRun

/-!
# Texts one behind the other

A file that is put together from texts is read as the texts are read one after the other, as long as
no line goes across a seam.  A physical line does not if the text before the seam ends with a line
feed (`EndsLine`), and a logical line does not if the last line of that text is not continued
(`NotContinued`).

Behind a seam the lines have other numbers than in a text of their own.  Nothing but the numbers
changes (`texts_splice`, `strippedLines_congr`).
-/

set_option autoImplicit false

namespace ShaderKit
namespace Text

/-! ## Physical lines -/

/-- The last line of the text is ended, if there is a line at all. -/
def EndsLine (text : List Char) : Prop := text = [] ∨ ∃ body, text = body ++ ['\n']

/-- The text with its last line ended, if there is a line at all. -/
def endLine (text : List Char) : List Char :=
  match text.getLast? with
  | none => text
  | some c => if c = '\n' then text else text ++ ['\n']

theorem endsLine_endLine (text : List Char) : EndsLine (endLine text) := by
  unfold endLine
  split
  · next h => exact Or.inl (List.getLast?_eq_none_iff.1 h)
  · next c h =>
    split
    · next hc =>
      obtain ⟨body, rfl⟩ := List.getLast?_eq_some_iff.1 h
      exact Or.inr ⟨body, by rw [hc]⟩
    · exact Or.inr ⟨text, rfl⟩

theorem physicalLines_ne_nil {text : List Char} (h : text ≠ []) : physicalLines text ≠ [] := by
  cases text with
  | nil => exact absurd rfl h
  | cons c text =>
    rw [physicalLines]
    split
    · exact List.cons_ne_nil _ _
    · split
      · exact List.cons_ne_nil _ _
      · exact List.cons_ne_nil _ _

/-- A character that ends no line is put in front of the first line. -/
theorem physicalLines_cons {c : Char} (hc : c ≠ '\n') {text line : List Char}
    {lines : List (List Char)} (h : physicalLines text = line :: lines) :
    physicalLines (c :: text) = (c :: line) :: lines := by
  rw [physicalLines, if_neg hc, h]

theorem physicalLines_append_newline (body rest : List Char) :
    physicalLines (body ++ '\n' :: rest) =
      physicalLines (body ++ ['\n']) ++ physicalLines rest := by
  induction body with
  | nil => rfl
  | cons c body ih =>
    by_cases hc : c = '\n'
    · subst hc
      exact congrArg ([] :: ·) ih
    · have hne : body ++ ['\n'] ≠ [] := by simp
      obtain ⟨line, lines, hlines⟩ := List.exists_cons_of_ne_nil (physicalLines_ne_nil hne)
      rw [hlines] at ih
      rw [List.cons_append, List.cons_append, physicalLines_cons hc ih,
        physicalLines_cons hc hlines]
      rfl

/-- **Physical lines do not go across a seam.** -/
theorem physicalLines_append {text : List Char} (h : EndsLine text) (rest : List Char) :
    physicalLines (text ++ rest) = physicalLines text ++ physicalLines rest := by
  rcases h with rfl | ⟨body, rfl⟩
  · rfl
  · rw [List.append_assoc, List.singleton_append, physicalLines_append_newline]

theorem physicalLines_line {line : List Char} (h : '\n' ∉ line) :
    physicalLines (line ++ ['\n']) = [line] := by
  induction line with
  | nil => rfl
  | cons c line ih =>
    rw [List.mem_cons, not_or] at h
    exact physicalLines_cons (Ne.symm h.1) (ih h.2)

theorem physicalLines_cons_congr (c : Char) {text other : List Char}
    (h : physicalLines text = physicalLines other) :
    physicalLines (c :: text) = physicalLines (c :: other) := by
  rw [physicalLines, physicalLines, h]

/-- To end the last line of a text adds no line. -/
theorem physicalLines_append_last {c : Char} (hc : c ≠ '\n') (body : List Char) :
    physicalLines (body ++ [c] ++ ['\n']) = physicalLines (body ++ [c]) := by
  induction body with
  | nil => simp [physicalLines, hc]
  | cons d body ih => exact physicalLines_cons_congr d ih

theorem physicalLines_of_not_mem {line : List Char} (h : '\n' ∉ line) (hne : line ≠ []) :
    physicalLines line = [line] := by
  obtain ⟨body, c, rfl⟩ := (List.eq_nil_or_concat line).resolve_left hne
  rw [List.concat_eq_append] at h ⊢
  have hc : c ≠ '\n' := fun hc => h (by simp [hc])
  rw [← physicalLines_append_last hc, physicalLines_line h]

theorem physicalLines_endLine (text : List Char) :
    physicalLines (endLine text) = physicalLines text := by
  unfold endLine
  split
  · rfl
  · next c h =>
    split
    · rfl
    · next hc =>
      obtain ⟨body, rfl⟩ := List.getLast?_eq_some_iff.1 h
      exact physicalLines_append_last hc body

end Text

namespace Preprocess

/-! ## Logical lines -/

namespace LogicalLine

/-- The last of some physical lines does not go on in the next one. -/
def NotContinued (raws : List (List Char)) : Prop := ∀ raw ∈ raws.getLast?, continued? raw = none

theorem NotContinued.tail {raw next : List Char} {raws : List (List Char)}
    (h : NotContinued (raw :: next :: raws)) : NotContinued (next :: raws) := by
  intro last hlast
  exact h last (by rwa [List.getLast?_cons_cons])

theorem splice_ne_nil {raws : List (List Char)} (h : raws ≠ []) (n : Nat) : splice n raws ≠ [] := by
  cases raws with
  | nil => exact absurd rfl h
  | cons raw raws =>
    rw [splice]
    split
    · exact List.cons_ne_nil _ _
    · split
      · exact List.cons_ne_nil _ _
      · exact List.cons_ne_nil _ _

theorem splice_cons_of_none {raw : List Char} (h : continued? raw = none) (n : Nat)
    (raws : List (List Char)) : splice n (raw :: raws) = ⟨n, raw⟩ :: splice (n + 1) raws := by
  rw [splice, h]

theorem splice_cons_of_some {raw body : List Char} (h : continued? raw = some body) {n : Nat}
    {raws : List (List Char)} {next : LogicalLine} {lines : List LogicalLine}
    (hnext : splice (n + 1) raws = next :: lines) :
    splice n (raw :: raws) = ⟨n, body ++ next.text⟩ :: lines := by
  rw [splice, h, hnext]

/-- **Logical lines do not go across a seam.** -/
theorem splice_append {raws : List (List Char)} (h : NotContinued raws) (more : List (List Char))
    (n : Nat) : splice n (raws ++ more) = splice n raws ++ splice (n + raws.length) more := by
  induction raws generalizing n with
  | nil => rfl
  | cons raw raws ih =>
    have hlength : n + (raw :: raws).length = n + 1 + raws.length := by
      rw [List.length_cons]
      omega
    rw [hlength]
    cases hraw : continued? raw with
    | none =>
      have htail : NotContinued raws := by
        cases raws with
        | nil => exact nofun
        | cons next raws => exact h.tail
      rw [List.cons_append, splice_cons_of_none hraw, splice_cons_of_none hraw, ih htail]
      rfl
    | some body =>
      cases raws with
      | nil =>
        have hnone := h raw rfl
        rw [hraw] at hnone
        cases hnone
      | cons next raws =>
        obtain ⟨line, lines, hlines⟩ :=
          List.exists_cons_of_ne_nil (splice_ne_nil (List.cons_ne_nil next raws) (n + 1))
        have happend := ih h.tail (n + 1)
        rw [hlines] at happend
        rw [List.cons_append, splice_cons_of_some hraw happend, splice_cons_of_some hraw hlines]
        rfl

/-- What the lines say does not depend on their numbers. -/
theorem texts_splice (n m : Nat) (raws : List (List Char)) :
    (splice n raws).map (·.text) = (splice m raws).map (·.text) := by
  induction raws generalizing n m with
  | nil => rfl
  | cons raw raws ih =>
    have htexts := ih (n + 1) (m + 1)
    rw [splice, splice]
    cases continued? raw with
    | none => exact congrArg (raw :: ·) htexts
    | some body =>
      dsimp only
      cases hn : splice (n + 1) raws with
      | nil =>
        rw [hn] at htexts
        rw [List.map_eq_nil_iff.1 htexts.symm]
        rfl
      | cons next lines =>
        cases hm : splice (m + 1) raws with
        | nil =>
          rw [hn, hm] at htexts
          cases htexts
        | cons next' lines' =>
          rw [hn, hm, List.map_cons, List.map_cons, List.cons.injEq] at htexts
          rw [List.map_cons, List.map_cons, htexts.1, htexts.2]

end LogicalLine

/-! ## Lines without comments -/

theorem strippedLines_append (inBlock : Bool) (lines more : List LogicalLine) :
    strippedLines inBlock (lines ++ more) =
      ((strippedLines inBlock lines).1 ++ (strippedLines (strippedLines inBlock lines).2 more).1,
        (strippedLines (strippedLines inBlock lines).2 more).2) := by
  induction lines generalizing inBlock with
  | nil => rfl
  | cons line lines ih => rw [List.cons_append, strippedLines_cons, ih, strippedLines_cons]; rfl

/-- The lines are alike, whatever their numbers are. -/
def SameLines (lines lines' : List StrippedLine) : Prop :=
  lines.map (·.line) = lines'.map (·.line)

theorem strippedLines_congr {lines lines' : List LogicalLine}
    (h : lines.map (·.text) = lines'.map (·.text)) (inBlock : Bool) :
    SameLines (strippedLines inBlock lines).1 (strippedLines inBlock lines').1 ∧
      (strippedLines inBlock lines).2 = (strippedLines inBlock lines').2 := by
  induction lines generalizing lines' inBlock with
  | nil =>
    rw [List.map_eq_nil_iff.1 h.symm]
    exact ⟨rfl, rfl⟩
  | cons line lines ih =>
    cases lines' with
    | nil => cases h
    | cons line' lines' =>
      rw [List.map_cons, List.map_cons, List.cons.injEq] at h
      have hrest := ih h.2 (stripComments inBlock line.text).2
      rw [strippedLines_cons, strippedLines_cons, ← h.1]
      exact ⟨congrArg (Line.classify (stripComments inBlock line.text).1 :: ·) hrest.1, hrest.2⟩

end Preprocess
end ShaderKit
