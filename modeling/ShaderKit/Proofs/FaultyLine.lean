import ShaderKit.Proofs.ConditionReading
import ShaderKit.Proofs.ConditionalTree
import ShaderKit.Proofs.ExpansionMachine
import ShaderKit.Proofs.RunReports

/-!
# A line at fault

What a line does wrong is one `Fault`, whatever the line is (`Line.fault?`), and it is the only
thing the line reports.  Lines at fault can be told without knowing it: they are those that add to
the diagnostics without opening a file (`exists_fault?_eq_some_iff`).  What a line that opens a file
adds is reported inside that file.

A fault can be found late, when a condition has been expanded, the parameters of a macro have been
read, or a handler has been asked for a file.  Nothing of that work is left behind: neither macros
nor output are changed by a line at fault.  Nor are the groups, except that a group whose condition
cannot be evaluated is there all the same.  It waits, as one whose condition does not hold: a later
branch of it may still be kept.
-/

set_option autoImplicit false

namespace ShaderKit
namespace Preprocess

variable {σ : Type}

/-! ## The fault of a line -/

/-- The fault that a line is reported for. -/
def Line.fault? (h : Include.Handler σ) (nested : Option (FileRunner σ)) (file : String)
    (st : FileState σ) : Line → Option Fault
  | .conditional c => (Group.apply st.session.macros c st.groups).2
  | .action a => if Group.keeps st.groups then (runAction h nested file a st.session).2 else none
  | .text line => if Group.keeps st.groups then (runText line st.session).2 else none

/-- Whether a file may be included, and the handler has it. -/
def CanOpen (h : Include.Handler σ) (nested : Option (FileRunner σ)) (file : String)
    (target : Include.Kind × List Char) (handler : σ) : Prop :=
  nested.isSome ∧ ∃ handle handler',
    h.acquire handler ⟨target.1, String.ofList target.2, some file⟩ = (.ok handle, handler')

/-- Whether a line includes a file and gets it. -/
def Line.OpensFile (h : Include.Handler σ) (nested : Option (FileRunner σ)) (file : String)
    (st : FileState σ) (line : Line) : Prop :=
  ∃ target, line.target? st.session.macros st.groups = some target ∧
    CanOpen h nested file target st.session.handler

/-- Whether a line opens a group. -/
def Line.isOpening : Line → Bool
  | .conditional (.opens _ _) => true
  | _ => false

/-- The groups behind a line that is at fault. -/
def Line.groupsAtFault (groups : List Group) (line : Line) : List Group :=
  if line.isOpening then Group.opened true false :: groups else groups

/-! ## What is left alone -/

theorem attempt_of_fault {s : Session σ} {result : Except Fault (Session σ)} {fault : Fault}
    (hfault : (attempt s result).2 = some fault) : (attempt s result).1 = s := by
  cases result with
  | ok s' => cases hfault
  | error fault => rfl

theorem runText_of_fault {line : List Char} {s : Session σ} {fault : Fault}
    (hfault : (runText line s).2 = some fault) : (runText line s).1 = s := by
  rw [runText] at hfault ⊢
  cases hexpand : expand s.macros (tokenize line) with
  | ok ts =>
    rw [hexpand] at hfault
    cases hfault
  | error e => rfl

section

variable {h : Include.Handler σ} {nested : Option (FileRunner σ)} {file : String}

/-- An `#include` at fault may have asked the handler for a file in vain. -/
theorem runInclude_of_fault {arguments : List Char} {s : Session σ} {fault : Fault}
    (hfault : (runInclude h nested file arguments s).2 = some fault) :
    ∃ handler, (runInclude h nested file arguments s).1 = { s with handler } := by
  rw [runInclude] at hfault ⊢
  cases htarget : includeTarget s.macros arguments with
  | error fault => exact ⟨s.handler, rfl⟩
  | ok target =>
    obtain ⟨kind, name⟩ := target
    rw [htarget] at hfault
    cases nested with
    | none => exact ⟨s.handler, rfl⟩
    | some run =>
      dsimp only at hfault ⊢
      rcases hanswer : h.acquire s.handler ⟨kind, String.ofList name, some file⟩ with
        ⟨failure | handle, handler⟩
      · exact ⟨handler, rfl⟩
      · rw [hanswer] at hfault
        cases hfault

/-- An `#include` without a fault has opened a file. -/
theorem runInclude_of_faultless {arguments : List Char} {s : Session σ}
    (hfault : (runInclude h nested file arguments s).2 = none) :
    ∃ target, includeTarget s.macros arguments = .ok target ∧
      CanOpen h nested file target s.handler := by
  rw [runInclude] at hfault
  cases htarget : includeTarget s.macros arguments with
  | error fault =>
    rw [htarget] at hfault
    cases hfault
  | ok target =>
    refine ⟨target, rfl, ?_⟩
    rw [htarget] at hfault
    cases nested with
    | none => cases hfault
    | some run =>
      dsimp only at hfault
      rcases hanswer : h.acquire s.handler ⟨target.1, String.ofList target.2, some file⟩ with
        ⟨failure | handle, handler⟩
      · rw [hanswer] at hfault
        cases hfault
      · exact ⟨rfl, handle, handler, hanswer⟩

theorem runAction_of_fault {a : Action} {s : Session σ} {fault : Fault}
    (hfault : (runAction h nested file a s).2 = some fault) :
    ∃ handler, (runAction h nested file a s).1 = { s with handler } := by
  cases a with
  | define arguments => exact ⟨s.handler, attempt_of_fault hfault⟩
  | undefine arguments => exact ⟨s.handler, attempt_of_fault hfault⟩
  | «include» arguments => exact runInclude_of_fault hfault
  | error text => exact ⟨s.handler, rfl⟩
  | unknown name => exact ⟨s.handler, rfl⟩
  | nothing => cases hfault
  | pragma line => cases hfault

/-- An action without a fault adds no diagnostic, unless it opens a file. -/
theorem runAction_of_faultless {a : Action} {s : Session σ}
    (hfault : (runAction h nested file a s).2 = none) :
    (runAction h nested file a s).1.diagnostics = s.diagnostics ∨
      ∃ arguments target, a = .include arguments ∧
        includeTarget s.macros arguments = .ok target ∧ CanOpen h nested file target s.handler := by
  have hplain : (runAction h none file a s).1.diagnostics = s.diagnostics := by
    obtain ⟨macros, output, fault, hrun⟩ := exists_runAction_eq a s.macros s.output
    exact congrArg (·.1.diagnostics) (hrun h file s.diagnostics s.handler)
  cases a with
  | «include» arguments =>
    obtain ⟨target, htarget, hopens⟩ := runInclude_of_faultless hfault
    exact .inr ⟨arguments, target, rfl, htarget, hopens⟩
  | _ => exact .inl hplain

end

namespace Group

theorem modifyInnermost_of_fault {missing fault : Fault} {change : Group → Except Fault Group}
    {groups : List Group} (hfault : (modifyInnermost missing change groups).2 = some fault) :
    (modifyInnermost missing change groups).1 = groups := by
  cases groups with
  | nil => rfl
  | cons g outer =>
    rw [modifyInnermost] at hfault ⊢
    cases hchange : change g with
    | error fault => rfl
    | ok g' =>
      rw [hchange] at hfault
      cases hfault

/-- A condition is evaluated only where lines are kept, so this is where it can fail. -/
theorem openWith_of_fault {table : MacroTable} {opening : Opening} {arguments : List Char}
    {groups : List Group} {fault : Fault}
    (hfault : (openWith table opening arguments groups).2 = some fault) :
    (openWith table opening arguments groups).1 = opened true false :: groups := by
  rw [openWith] at hfault ⊢
  cases hk : keeps groups with
  | false =>
    rw [hk] at hfault
    cases hfault
  | true =>
    cases hholds : openingHolds table opening arguments with
    | error fault => rfl
    | ok holds =>
      rw [hk, hholds] at hfault
      cases hfault

theorem apply_of_fault {table : MacroTable} {c : Conditional} {groups : List Group} {fault : Fault}
    (hfault : (apply table c groups).2 = some fault) :
    (apply table c groups).1 = (Line.conditional c).groupsAtFault groups := by
  cases c with
  | opens opening arguments => exact openWith_of_fault hfault
  | elif arguments => exact modifyInnermost_of_fault hfault
  | otherwise => exact modifyInnermost_of_fault hfault
  | endif =>
    cases groups with
    | nil => rfl
    | cons g outer => cases hfault

end Group

/-! ## Lines -/

section

variable {h : Include.Handler σ} {nested : Option (FileRunner σ)} {file : String} {line : Line}
  {st : FileState σ}

/-- A line at fault adds its report, and possibly the group that it opens. -/
theorem runStripped_of_fault? {fault : Fault} (hfault : line.fault? h nested file st = some fault)
    (number : Nat) :
    ∃ handler, runStripped h nested file number line st =
      ⟨line.groupsAtFault st.groups, st.inBlock,
        ({ st.session with handler }).report file number (some fault)⟩ := by
  cases line with
  | conditional c =>
    refine ⟨st.session.handler, ?_⟩
    change FileState.mk (Group.apply st.session.macros c st.groups).1 st.inBlock
      (st.session.report file number (Group.apply st.session.macros c st.groups).2) = _
    rw [Line.fault?] at hfault
    rw [Group.apply_of_fault hfault, hfault]
  | action a =>
    rw [Line.fault?] at hfault
    split at hfault
    · next hk =>
      obtain ⟨handler, hs⟩ := runAction_of_fault hfault
      refine ⟨handler, ?_⟩
      rw [runStripped_action, if_pos hk, hs, hfault]
      rfl
    · cases hfault
  | text text =>
    rw [Line.fault?] at hfault
    split at hfault
    · next hk =>
      refine ⟨st.session.handler, ?_⟩
      simp only [runStripped, hk, if_true]
      rw [runText_of_fault hfault, hfault]
      rfl
    · cases hfault

/-- A line without a fault adds no diagnostic, unless it opens a file. -/
theorem runStripped_of_fault?_eq_none (hfault : line.fault? h nested file st = none)
    (number : Nat) :
    (runStripped h nested file number line st).session.diagnostics = st.session.diagnostics ∨
      line.OpensFile h nested file st := by
  cases line with
  | conditional c =>
    left
    rw [Line.fault?] at hfault
    change (st.session.report file number
      (Group.apply st.session.macros c st.groups).2).diagnostics = _
    rw [hfault]
    rfl
  | text text =>
    left
    rw [Line.fault?] at hfault
    simp only [runStripped]
    split
    · next hk =>
      obtain ⟨output, fault, hrun⟩ := exists_runText_eq text st.session.macros st.session.output
      rw [if_pos hk] at hfault
      rw [hfault]
      exact congrArg (·.1.diagnostics) (hrun st.session.diagnostics st.session.handler)
    · rfl
  | action a =>
    rw [Line.fault?] at hfault
    rw [runStripped_action]
    split
    · next hk =>
      rw [if_pos hk] at hfault
      rw [hfault]
      refine (runAction_of_faultless hfault).imp id ?_
      rintro ⟨arguments, target, rfl, htarget, hopens⟩
      refine ⟨target, ?_, hopens⟩
      rw [Line.target?, if_pos hk, htarget]
      rfl
    · exact .inl rfl

/-- What a line that opens a file adds is reported inside that file. -/
theorem Line.OpensFile.fault?_eq_none (hopens : line.OpensFile h nested file st) :
    line.fault? h nested file st = none := by
  obtain ⟨⟨kind, name⟩, htarget, hnested, handle, handler, hanswer⟩ := hopens
  obtain ⟨arguments, rfl, hk, hi⟩ := exists_of_target?_eq_some htarget
  obtain ⟨run, rfl⟩ := Option.isSome_iff_exists.1 hnested
  rw [Line.fault?, if_pos hk, runAction, runInclude, hi]
  dsimp only at hanswer ⊢
  rw [hanswer]

/-- **The lines at fault are seen from outside**: they are those that add to the diagnostics, and
open no file. -/
theorem exists_fault?_eq_some_iff (number : Nat) :
    (∃ fault, line.fault? h nested file st = some fault) ↔
      (runStripped h nested file number line st).session.diagnostics ≠ st.session.diagnostics ∧
        ¬ line.OpensFile h nested file st := by
  constructor
  · rintro ⟨fault, hfault⟩
    refine ⟨fun hsame => ?_, fun hopens => ?_⟩
    · obtain ⟨handler, hrun⟩ := runStripped_of_fault? hfault number
      rw [hrun] at hsame
      exact Array.push_ne_self hsame
    · rw [hopens.fault?_eq_none] at hfault
      cases hfault
  · rintro ⟨hadds, hopens⟩
    cases hfault : line.fault? h nested file st with
    | none => exact absurd (runStripped_of_fault?_eq_none hfault number) (not_or.2 ⟨hadds, hopens⟩)
    | some fault => exact ⟨fault, rfl⟩

end

/-! ## What is added -/

/-- The innermost group has been opened although its condition could not be evaluated. -/
structure AwaitsBranch (h : Include.Handler σ) (nested : Option (FileRunner σ)) (file : String)
    (outer : List Group) (st : FileState σ) : Prop where
  /-- It is not active, and no branch of it has been taken. -/
  group : ∃ g, st.groups = g :: outer ∧ g.active = false ∧ g.taken = false
  /-- An `#elif` makes it active if its condition holds, -/
  elif : ∀ table arguments, Group.keeps (Group.apply table (.elif arguments) st.groups).1 = true ↔
    condition table arguments = .ok true
  /-- and an `#else` makes it active in any case. -/
  otherwise : ∀ table, Group.keeps (Group.apply table .otherwise st.groups).1 = true
  /-- The branch it is in is passed over, and the branches that follow are evaluated. -/
  rest : ∀ (body : Block) (rest : Branches),
    runStrippedLines h nested file (body.lines ++ rest.lines) st =
      ⟨outer, st.inBlock, rest.eval h nested file st.session⟩

/-- A line at fault adds a diagnostic, which is about this fault, and nothing else but the group it
may open. -/
structure FailsAlone (h : Include.Handler σ) (nested : Option (FileRunner σ)) (file : String)
    (number : Nat) (line : Line) (fault : Fault) (st after : FileState σ) : Prop where
  diagnostics : after.session.diagnostics.toList =
    st.session.diagnostics.toList ++ [fault.at file number]
  macros : after.session.macros = st.session.macros
  output : after.session.output = st.session.output
  groups : line.isOpening = false → after.groups = st.groups
  opened : line.isOpening = true → AwaitsBranch h nested file st.groups after

theorem awaitsBranch_opened (h : Include.Handler σ) (nested : Option (FileRunner σ))
    (file : String) (outer : List Group) (b : Bool) (s : Session σ) :
    AwaitsBranch h nested file outer ⟨Group.opened true false :: outer, b, s⟩ where
  group := ⟨Group.opened true false, rfl, rfl, rfl⟩
  elif table arguments := by
    have helif : Group.elif table arguments (Group.opened true false) =
        (condition table arguments).map (Group.opened true) := by
      simp only [Group.elif, Group.opened]
      cases condition table arguments <;> rfl
    simp only [Group.apply, Group.modifyInnermost, helif]
    cases condition table arguments with
    | error fault => simp [Except.map, Group.keeps, Group.opened]
    | ok holds => simp [Except.map, Group.keeps, Group.opened]
  otherwise table := rfl
  rest body rest := by
    rw [runStrippedLines_append, runStrippedLines_of_not_keeps h nested file body rfl,
      runStrippedLines_of_waiting]

/-- **A line at fault changes nothing but the diagnostics**, whatever the state it is found in: it
adds a single one, for its fault, and otherwise at most a group.  And no other line adds any, except
a line that opens a file, in which they are added. -/
theorem runLine_failsAlone (h : Include.Handler σ) (nested : Option (FileRunner σ)) (file : String)
    (st : FileState σ) (line : LogicalLine) :
    (∀ fault ∈ (Line.classify (stripComments st.inBlock line.text).1).fault? h nested file st,
        FailsAlone h nested file line.number (Line.classify (stripComments st.inBlock line.text).1)
          fault st (runLine h nested file st line)) ∧
      ((∃ fault, (Line.classify (stripComments st.inBlock line.text).1).fault? h nested file st =
          some fault) ↔
        (runLine h nested file st line).session.diagnostics ≠ st.session.diagnostics ∧
          ¬ (Line.classify (stripComments st.inBlock line.text).1).OpensFile h nested file st) := by
  rw [runLine_eq]
  generalize Line.classify (stripComments st.inBlock line.text).1 = stripped
  refine ⟨fun fault hfault => ?_, exists_fault?_eq_some_iff line.number⟩
  obtain ⟨handler, hrun⟩ := runStripped_of_fault? hfault line.number
  rw [hrun]
  refine ⟨diagnostics_report _ _ _ _, rfl, rfl, fun hno => ?_, fun hyes => ?_⟩
  · exact if_neg (by simp [hno])
  · rw [Line.groupsAtFault, if_pos hyes]
    exact awaitsBranch_opened h nested file st.groups _ _

/-- A condition that divides by a macro, which is zero. -/
def zeroDivisor : LogicalLine := ⟨7, "#if 1 / A".toList⟩

/-- A state inside a group, where `A` is zero and no file can be included. -/
def insideGroup : FileState Unit :=
  ⟨[Group.opened true true], false, ⟨predefine [⟨"A", "0"⟩], #[['x']], #[], ()⟩⟩

/-- The tokens of the condition there, when the macro is expanded. -/
def zeroQuotient : List Token :=
  [⟨.number, ['1'], []⟩, blankToken, ⟨.punctuator, ['/'], []⟩, blankToken,
    ⟨.number, ['0'], [['A']]⟩, blankToken]

theorem evaluate_zeroQuotient : evaluate zeroQuotient = .error .divisionByZero := by
  have hquotient : Phrase 10 _ (.binary .div (.constant 1) (.constant 0)) :=
    .binary (t := ⟨.punctuator, ['/'], []⟩) (mem_binaryOperators_iff.2 ⟨rfl, rfl⟩) rfl
      (.tighter (by decide) (.constant (t := ⟨.number, ['1'], []⟩) rfl isConstant_one))
      (.constant (t := ⟨.number, ['0'], [['A']]⟩) rfl isConstant_zero)
  have hexpr : IsExpression zeroQuotient _ := hquotient.loosen (Nat.zero_le 10) (by decide)
  rw [hexpr.evaluate_eq_run]
  decide

theorem condition_zeroDivisor :
    condition insideGroup.session.macros "1 / A".toList = .error (.condition .divisionByZero) := by
  have hanswer : answerDefined insideGroup.session.macros
      ((tokenize "1 / A".toList).filter fun t => !t.isSpace) =
      .ok [⟨.number, ['1'], []⟩, blankToken, ⟨.punctuator, ['/'], []⟩, blankToken,
        ⟨.identifier, ['A'], []⟩, blankToken] := by decide +kernel
  have hexpand : expand insideGroup.session.macros
      [⟨.number, ['1'], []⟩, blankToken, ⟨.punctuator, ['/'], []⟩, blankToken,
        ⟨.identifier, ['A'], []⟩, blankToken] = .ok zeroQuotient :=
    Machine.expand_eq_of_halted (n := 9) (by decide +kernel)
  rw [condition, hanswer]
  change ((expand insideGroup.session.macros _).mapError Fault.expansion >>= _) = _
  rw [hexpand]
  change ((evaluate zeroQuotient).mapError Fault.condition >>= _) = _
  rw [evaluate_zeroQuotient]
  rfl

theorem runLine_failsAlone_zeroDivisor :
    (Line.classify (stripComments insideGroup.inBlock zeroDivisor.text).1).fault? noFiles none
        "main" insideGroup = some (.condition .divisionByZero) ∧
      FailsAlone noFiles none "main" 7 (.conditional (.opens .condition "1 / A".toList))
        (.condition .divisionByZero) insideGroup
        (runLine noFiles none "main" insideGroup zeroDivisor) := by
  have hline : Line.classify (stripComments insideGroup.inBlock zeroDivisor.text).1 =
      .conditional (.opens .condition "1 / A".toList) := by decide
  have hcondition : openingHolds insideGroup.session.macros .condition "1 / A".toList =
      .error (.condition .divisionByZero) := condition_zeroDivisor
  have hfault : (Line.classify (stripComments insideGroup.inBlock zeroDivisor.text).1).fault?
      noFiles none "main" insideGroup = some (.condition .divisionByZero) := by
    have hkeeps : Group.keeps insideGroup.groups = true := rfl
    rw [hline, Line.fault?, Group.apply, Group.openWith, hkeeps, hcondition]
    rfl
  have halone := (runLine_failsAlone noFiles none "main" insideGroup zeroDivisor).1 _ hfault
  exact ⟨hfault, hline ▸ halone⟩

end Preprocess
end ShaderKit
