import ShaderKit.Proofs.FileRun

/-!
# Conditional groups as a tree

A file is run line by line, with a stack of open groups of which only the innermost is looked at.
What a reader has in mind is different: a group is a thing with branches, each branch is again a
piece of a file, and at most one of them counts.  `Block` and `Branches` are that reading as data —
a tree of these types is well nested because there is no other way to build one — and `Block.eval`
says what it means, without a stack and without flags.

`Block.lines` writes a tree down as lines.  The theorem of this module is that running those lines
is evaluating the tree.  It is carried by four facts about the stack, two for a part that is not
kept and two for a part that is:

* inside a branch that is not kept, a block changes nothing (`runStrippedLines_of_not_keeps`);
* once a branch has been taken, the rest of the group is passed over (`runStrippedLines_of_taken`);
* where lines are kept, a block is evaluated (`runStrippedLines_of_keeps`);
* as long as no branch has been taken, the rest of the group is (`runStrippedLines_of_waiting`).
-/

set_option autoImplicit false

namespace ShaderKit
namespace Preprocess

/-! ## Trees -/

/-- A line that is no conditional directive. -/
inductive PlainLine where
  | text (line : List Char)
  | action (a : Action)
  deriving DecidableEq, Repr

/-- The line as one of a file. -/
def PlainLine.toLine : PlainLine → Line
  | text line => .text line
  | action a => .action a

mutual

/-- A well-nested piece of a file.  All lines carry their numbers. -/
inductive Block where
  | nil
  | plain (number : Nat) (line : PlainLine) (next : Block)
  /-- A group: the directive that opens it, its first branch, and what there is from the end of
  that branch to `#endif`. -/
  | group (number : Nat) (opening : Opening) (arguments : List Char) (body : Block)
      (rest : Branches) (next : Block)

/-- The end of a group, from the directive that closes a branch on. -/
inductive Branches where
  | endif (number : Nat)
  | elif (number : Nat) (arguments : List Char) (body : Block) (rest : Branches)
  /-- An `#else`, its branch, and the number of the `#endif` line. -/
  | otherwise (number : Nat) (body : Block) (last : Nat)

end

mutual

/-- The lines of a piece of a file. -/
def Block.lines : Block → List StrippedLine
  | .nil => []
  | .plain number line next => ⟨number, line.toLine⟩ :: next.lines
  | .group number opening arguments body rest next =>
    ⟨number, .conditional (.opens opening arguments)⟩ :: (body.lines ++ rest.lines ++ next.lines)

/-- The lines of the branches of a group, from the end of the first branch on. -/
def Branches.lines : Branches → List StrippedLine
  | .endif number => [⟨number, .conditional .endif⟩]
  | .elif number arguments body rest =>
    ⟨number, .conditional (.elif arguments)⟩ :: (body.lines ++ rest.lines)
  | .otherwise number body last =>
    ⟨number, .conditional .otherwise⟩ :: (body.lines ++ [⟨last, .conditional .endif⟩])

end

/-! ## What a tree means -/

section Eval

variable {σ : Type} (h : Include.Handler σ) (nested : Option (FileRunner σ)) (file : String)

/-- The session after a line that is no conditional directive. -/
def PlainLine.eval (number : Nat) (s : Session σ) : PlainLine → Session σ
  | text line =>
    let (s, fault) := runText line s
    s.report file number fault
  | action a =>
    let (s, fault) := runAction h nested file a s
    s.report file number fault

/-- Whether a condition holds, and the session after it: a condition that cannot be evaluated is
reported, and does not hold. -/
def Session.judge (s : Session σ) (number : Nat) : Except Fault Bool → Bool × Session σ
  | .ok holds => (holds, s)
  | .error fault => (false, s.report file number (some fault))

mutual

/-- The session after a piece of a file in which lines are kept.  Of a group, the first branch
whose condition holds is evaluated, and nothing of what follows it; conditions are asked in order,
of the macros as they are then. -/
def Block.eval : Block → Session σ → Session σ
  | .nil, s => s
  | .plain number line next, s => next.eval (line.eval h nested file number s)
  | .group number opening arguments body rest next, s =>
    let (holds, s) := s.judge file number (openingHolds s.macros opening arguments)
    next.eval (if holds then body.eval s else rest.eval s)

/-- The session after the end of a group of which no branch has been taken yet. -/
def Branches.eval : Branches → Session σ → Session σ
  | .endif _, s => s
  | .elif number arguments body rest, s =>
    let (holds, s) := s.judge file number (condition s.macros arguments)
    if holds then body.eval s else rest.eval s
  | .otherwise _ body _, s => body.eval s

end

end Eval

/-! ## What is not kept -/

section Run

variable {σ : Type} (h : Include.Handler σ) (nested : Option (FileRunner σ)) (file : String)

theorem runStripped_plain_of_not_keeps (number : Nat) (line : PlainLine) {groups : List Group}
    (hk : Group.keeps groups = false) (b : Bool) (s : Session σ) :
    runStripped h nested file number line.toLine ⟨groups, b, s⟩ = ⟨groups, b, s⟩ := by
  cases line with
  | text line => simp [PlainLine.toLine, runStripped, hk]
  | action a => simp [PlainLine.toLine, runStripped, hk]

theorem runStripped_opens_of_not_keeps (number : Nat) (opening : Opening) (arguments : List Char)
    {groups : List Group} (hk : Group.keeps groups = false) (b : Bool) (s : Session σ) :
    runStripped h nested file number (.conditional (.opens opening arguments)) ⟨groups, b, s⟩ =
      ⟨Group.opened false false :: groups, b, s⟩ := by
  simp [runStripped, Group.apply, Group.openWith, hk, Session.report]

theorem runStripped_elif_of_taken (number : Nat) (arguments : List Char) {g : Group}
    (he : g.seenElse = false) (ht : g.taken = true) (outer : List Group) (b : Bool)
    (s : Session σ) :
    runStripped h nested file number (.conditional (.elif arguments)) ⟨g :: outer, b, s⟩ =
      ⟨{ g with active := false } :: outer, b, s⟩ := by
  simp [runStripped, Group.apply, Group.modifyInnermost, Group.elif, he, ht, Session.report]

theorem runStripped_otherwise (number : Nat) {g : Group} (he : g.seenElse = false)
    (outer : List Group) (b : Bool) (s : Session σ) :
    runStripped h nested file number (.conditional .otherwise) ⟨g :: outer, b, s⟩ =
      ⟨{ g with active := g.outerActive && !g.taken, taken := true, seenElse := true } :: outer,
        b, s⟩ := by
  simp [runStripped, Group.apply, Group.modifyInnermost, Group.otherwise, he, Session.report]

theorem runStripped_endif (number : Nat) (g : Group) (outer : List Group) (b : Bool)
    (s : Session σ) :
    runStripped h nested file number (.conditional .endif) ⟨g :: outer, b, s⟩ =
      ⟨outer, b, s⟩ := by
  simp [runStripped, Group.apply, Session.report]

mutual

/-- Where lines are not kept, a piece of a file changes nothing. -/
theorem runStrippedLines_of_not_keeps (t : Block) {groups : List Group}
    (hk : Group.keeps groups = false) (b : Bool) (s : Session σ) :
    runStrippedLines h nested file t.lines ⟨groups, b, s⟩ = ⟨groups, b, s⟩ := by
  match t with
  | .nil => rfl
  | .plain number line next =>
    rw [Block.lines, runStrippedLines_cons, runStripped_plain_of_not_keeps h nested file _ _ hk]
    exact runStrippedLines_of_not_keeps next hk b s
  | .group number opening arguments body rest next =>
    rw [Block.lines, runStrippedLines_cons, runStripped_opens_of_not_keeps h nested file _ _ _ hk,
      runStrippedLines_append, runStrippedLines_append, runStrippedLines_of_not_keeps body rfl,
      runStrippedLines_of_taken rest rfl rfl]
    exact runStrippedLines_of_not_keeps next hk b s

/-- When a branch has been taken, what is left of the group changes nothing but the stack. -/
theorem runStrippedLines_of_taken (r : Branches) {g : Group} (he : g.seenElse = false)
    (ht : g.taken = true) (outer : List Group) (b : Bool) (s : Session σ) :
    runStrippedLines h nested file r.lines ⟨g :: outer, b, s⟩ = ⟨outer, b, s⟩ := by
  match r with
  | .endif number => exact runStripped_endif h nested file number g outer b s
  | .elif number arguments body rest =>
    rw [Branches.lines, runStrippedLines_cons, runStripped_elif_of_taken h nested file _ _ he ht,
      runStrippedLines_append, runStrippedLines_of_not_keeps body rfl]
    exact runStrippedLines_of_taken rest (g := { g with active := false }) he ht outer b s
  | .otherwise number body last =>
    rw [Branches.lines, runStrippedLines_cons, runStripped_otherwise h nested file _ he,
      runStrippedLines_append, runStrippedLines_of_not_keeps body (by simp [Group.keeps, ht]),
      runStrippedLines_cons, runStripped_endif, runStrippedLines_nil]

end

/-! ## What is kept -/

theorem runStripped_plain_of_keeps (number : Nat) (line : PlainLine) {groups : List Group}
    (hk : Group.keeps groups = true) (b : Bool) (s : Session σ) :
    runStripped h nested file number line.toLine ⟨groups, b, s⟩ =
      ⟨groups, b, line.eval h nested file number s⟩ := by
  cases line with
  | text line => simp [PlainLine.toLine, PlainLine.eval, runStripped, hk]
  | action a => simp [PlainLine.toLine, PlainLine.eval, runStripped, hk]

/-- A directive that opens a group where lines are kept: the new group is active and taken if the
condition holds, and neither if it does not. -/
theorem runStripped_opens_of_keeps (number : Nat) (opening : Opening) (arguments : List Char)
    {groups : List Group} (hk : Group.keeps groups = true) (b : Bool) (s : Session σ) :
    runStripped h nested file number (.conditional (.opens opening arguments)) ⟨groups, b, s⟩ =
      let judged := s.judge file number (openingHolds s.macros opening arguments)
      ⟨Group.opened true judged.1 :: groups, b, judged.2⟩ := by
  cases hc : openingHolds s.macros opening arguments with
  | ok holds =>
    simp [runStripped, Group.apply, Group.openWith, hk, hc, Session.judge, Session.report]
  | error fault =>
    simp [runStripped, Group.apply, Group.openWith, hk, hc, Session.judge, Session.report]

/-- An `#elif` of a group no branch of which has been taken: it is as if the group began here. -/
theorem runStripped_elif_of_waiting (number : Nat) (arguments : List Char) (outer : List Group)
    (b : Bool) (s : Session σ) :
    runStripped h nested file number (.conditional (.elif arguments))
        ⟨Group.opened true false :: outer, b, s⟩ =
      let judged := s.judge file number (condition s.macros arguments)
      ⟨Group.opened true judged.1 :: outer, b, judged.2⟩ := by
  have helif : Group.elif s.macros arguments (Group.opened true false) =
      (condition s.macros arguments).map (Group.opened true) := by
    simp only [Group.elif, Group.opened]
    cases condition s.macros arguments with
    | ok holds => rfl
    | error fault => rfl
  simp only [runStripped, Group.apply, Group.modifyInnermost, helif]
  cases condition s.macros arguments with
  | ok holds => rfl
  | error fault => rfl

mutual

/-- Where lines are kept, a piece of a file is evaluated. -/
theorem runStrippedLines_of_keeps (t : Block) {groups : List Group}
    (hk : Group.keeps groups = true) (b : Bool) (s : Session σ) :
    runStrippedLines h nested file t.lines ⟨groups, b, s⟩ =
      ⟨groups, b, t.eval h nested file s⟩ := by
  match t with
  | .nil => rfl
  | .plain number line next =>
    rw [Block.lines, runStrippedLines_cons, runStripped_plain_of_keeps h nested file _ _ hk,
      Block.eval]
    exact runStrippedLines_of_keeps next hk b _
  | .group number opening arguments body rest next =>
    rw [Block.lines, runStrippedLines_cons, runStripped_opens_of_keeps h nested file _ _ _ hk,
      runStrippedLines_append, runStrippedLines_append, Block.eval]
    generalize s.judge file number (openingHolds s.macros opening arguments) = judged
    obtain ⟨holds, s'⟩ := judged
    cases holds with
    | true =>
      rw [runStrippedLines_of_keeps body rfl, runStrippedLines_of_taken h nested file rest rfl rfl]
      exact runStrippedLines_of_keeps next hk b _
    | false =>
      rw [runStrippedLines_of_not_keeps h nested file body rfl, runStrippedLines_of_waiting rest]
      exact runStrippedLines_of_keeps next hk b _

/-- As long as no branch of a group has been taken, the rest of the group is evaluated. -/
theorem runStrippedLines_of_waiting (r : Branches) (outer : List Group) (b : Bool)
    (s : Session σ) :
    runStrippedLines h nested file r.lines ⟨Group.opened true false :: outer, b, s⟩ =
      ⟨outer, b, r.eval h nested file s⟩ := by
  match r with
  | .endif number => exact runStripped_endif h nested file number (.opened true false) outer b s
  | .elif number arguments body rest =>
    rw [Branches.lines, runStrippedLines_cons, runStripped_elif_of_waiting,
      runStrippedLines_append, Branches.eval]
    generalize s.judge file number (condition s.macros arguments) = judged
    obtain ⟨holds, s'⟩ := judged
    cases holds with
    | true =>
      rw [runStrippedLines_of_keeps body rfl]
      exact runStrippedLines_of_taken h nested file rest rfl rfl outer b _
    | false =>
      rw [runStrippedLines_of_not_keeps h nested file body rfl]
      exact runStrippedLines_of_waiting rest outer b s'
  | .otherwise number body last =>
    rw [Branches.lines, runStrippedLines_cons, runStripped_otherwise h nested file _ rfl,
      runStrippedLines_append, runStrippedLines_of_keeps body rfl, runStrippedLines_cons,
      runStripped_endif, runStrippedLines_nil, Branches.eval]

end

/-- **Conditional groups mean what their nesting says.**  If the lines of a file, their comments
taken out, are those of a tree, then running the file is evaluating the tree: the same lines put
out, the same diagnostics at the same lines, the same macros, the same dealings with the handler.
Only a block comment that is open at the end is reported on top of that. -/
theorem runFile_eq_eval (depth : Nat) (text : List Char) (t : Block) (open? : Bool)
    (ht : strippedLines false (LogicalLine.ofText text) = (t.lines, open?)) (s : Session σ) :
    runFile h depth file text s =
      (t.eval h (included h depth) file s).report file (lastLine text)
        (if open? then some .unterminatedComment else none) := by
  rw [runFile_eq_runLines, runLines, foldl_runLine, ht,
    runStrippedLines_of_keeps h (included h depth) file t rfl]
  rfl

end Run

/-- A text with a group inside a branch, conditions that cannot be evaluated, and a comment that
runs up to a directive. -/
def branchingText : List Char :=
  ("#if 1/0\na\n#elif X // b\n#ifdef Y\nb\n#else\nc\n#endif\n" ++
    "#elif 1/0\n#else\nd /*\n*/#endif\ne").toList

/-- The tree of `branchingText`. -/
def branchingTree : Block :=
  .group 1 .condition "1/0".toList (.plain 2 (.text ['a']) .nil)
    (.elif 3 ['X']
      (.group 4 .defined ['Y'] (.plain 5 (.text ['b']) .nil)
        (.otherwise 6 (.plain 7 (.text ['c']) .nil) 8) .nil)
      (.elif 9 "1/0".toList .nil (.otherwise 10 (.plain 11 (.text "d  ".toList) .nil) 12)))
    (.plain 13 (.text ['e']) .nil)

theorem runFile_eq_eval_branchingText :
    strippedLines false (LogicalLine.ofText branchingText) = (branchingTree.lines, false) ∧
      runFile (σ := Unit) ⟨fun u _ => (.error .noSearchPaths, u), fun u _ => u⟩ 1 "main"
          branchingText ⟨{}, #[], #[], ()⟩ =
        branchingTree.eval ⟨fun u _ => (.error .noSearchPaths, u), fun u _ => u⟩
          (included ⟨fun u _ => (.error .noSearchPaths, u), fun u _ => u⟩ 1) "main"
          ⟨{}, #[], #[], ()⟩ :=
  have ht : strippedLines false (LogicalLine.ofText branchingText) = (branchingTree.lines, false) :=
    by decide
  ⟨ht, runFile_eq_eval _ "main" 1 branchingText branchingTree false ht _⟩

end Preprocess
end ShaderKit
