import ShaderKit.Proofs.CommentScan
import ShaderKit.Proofs.IncludeStack
import ShaderKit.Proofs.TextSeams

/-!
# Lines that include a file

What is asked of a line that includes a file, when all that matters is which file that is: it stands
alone, and lines are kept where it stands (`IncludesAlone`).  A line that names the file between
quotation marks is one (`includesAlone_includeLine`): comments are not looked for inside quotation
marks, and the name is taken as it is.
-/

set_option autoImplicit false

namespace ShaderKit
namespace Preprocess

variable {σ : Type}

/-- The line, read where the state says, is a line of its own that includes the file `name`: lines
are kept there, and neither before nor behind it is a block comment open. -/
structure IncludesAlone (line name : List Char) (st : FileState σ) : Prop where
  oneLine : '\n' ∉ line
  notContinued : LogicalLine.continued? line = none
  outside : st.inBlock = false
  target : ∃ kind,
    (Line.classify (stripComments false line).1).target? st.session.macros st.groups =
      some (kind, name)
  closed : (stripComments false line).2 = false

theorem IncludesAlone.line_ne_nil {line name : List Char} {st : FileState σ}
    (hline : IncludesAlone line name st) : line ≠ [] := by
  rintro rfl
  obtain ⟨kind, ht⟩ := hline.target
  cases ht

/-! ## The line that names its file between quotation marks -/

/-- The line that includes a file by its name. -/
def includeLine (name : List Char) : List Char :=
  ['#', 'i', 'n', 'c', 'l', 'u', 'd', 'e', ' '] ++ '"' :: (name ++ ['"'])

theorem stripComments_includeLine {name : List Char} (h : '"' ∉ name) :
    stripComments false (includeLine name) = (includeLine name, false) := by
  have hquote : scan .code ('"' :: (name ++ ['"'])) = ('"' :: (name ++ ['"']), false) := by
    rw [scan, show isQuote '"' = true from rfl, if_pos rfl, scan_quoted name h]
    · exact fun s hslash => absurd hslash (by decide)
    · exact fun s hslash => absurd hslash (by decide)
  have hplain : ∀ c ∈ ['#', 'i', 'n', 'c', 'l', 'u', 'd', 'e', ' '],
      c ≠ '/' ∧ isQuote c = false := by simp [isQuote]
  refine stripComments_of_scan ?_
  rw [includeLine, scan_code_append hplain, hquote]

theorem classify_includeLine (name : List Char) :
    Line.classify (includeLine name) = .action (.include ('"' :: (name ++ ['"']))) := by
  have hblank : Text.isBlank '"' = false := by decide
  have htrim : Text.trim (' ' :: '"' :: (name ++ ['"'])) = '"' :: (name ++ ['"']) := by
    have hstart : Text.trimStart (' ' :: '"' :: (name ++ ['"'])) = '"' :: (name ++ ['"']) := by
      simp [Text.trimStart, show Text.isBlank ' ' = true by decide, hblank]
    rw [Text.trim, hstart, Text.trimEnd]
    simp [hblank]
  change Line.ofDirective ['i', 'n', 'c', 'l', 'u', 'd', 'e']
    (Text.trim (' ' :: '"' :: (name ++ ['"']))) (includeLine name) = _
  rw [htrim]
  rfl

theorem includeTarget?_quoted {name : List Char} (hne : name ≠ []) (h : '"' ∉ name) :
    includeTarget? ('"' :: (name ++ ['"'])) = some (.quoted, name) := by
  obtain ⟨c, name, rfl⟩ := List.exists_cons_of_ne_nil hne
  rw [includeTarget?]
  dsimp only
  rw [Text.cutAt?_append h]

theorem includesAlone_includeLine {name : List Char} (hne : name ≠ []) (hquote : '"' ∉ name)
    (hline : '\n' ∉ name) {st : FileState σ} (hk : Group.keeps st.groups = true)
    (houtside : st.inBlock = false) : IncludesAlone (includeLine name) name st where
  oneLine := by simp [includeLine, hline]
  notContinued := by
    cases hbody : LogicalLine.continued? (includeLine name) with
    | none => rfl
    | some body =>
      have hend : (includeLine name).getLast? = some '\\' := by
        simp [LogicalLine.continued?_eq_some_iff.1 hbody]
      have hquoted : (includeLine name).getLast? = some '"' := by
        rw [includeLine, ← List.cons_append, ← List.append_assoc, List.getLast?_concat]
      rw [hquoted] at hend
      cases hend
  outside := houtside
  target := by
    refine ⟨.quoted, ?_⟩
    rw [stripComments_includeLine hquote, classify_includeLine, Line.target?, if_pos hk,
      includeTarget, includeTarget?_quoted hne hquote]
    rfl
  closed := by rw [stripComments_includeLine hquote]

end Preprocess
end ShaderKit
