import Mathlib.Logic.Function.Iterate
import ShaderKit.Proofs.FileRun

/-!
# Includes, one line at a time

`runFile` runs an included file inside the line that includes it, and is given a number that says
how often this may go on.  `IncludeRun` does the same work without recursion and without the number
running down: it keeps the files that have been begun in a list, innermost first, and a step takes
one line of the first of them, or finishes it.  What goes to the handler and comes back from it is
written down on the way, as `Exchange`s.

Nothing in `step` says that this ever ends.  `exists_iterate_step_file` does, for every handler, and
that it ends in the session of `runFile`.
-/

set_option autoImplicit false

namespace ShaderKit
namespace Preprocess

variable {σ : Type}

/-! ## Lines that ask for a file -/

/-- The file that a line includes, if it is an `#include` where lines are kept, and names one. -/
def Line.target? (macros : MacroTable) (groups : List Group) :
    Line → Option (Include.Kind × List Char)
  | .action (.include arguments) =>
    if Group.keeps groups then (includeTarget macros arguments).toOption else none
  | _ => none

/-- The text of an include file. -/
def includedText (handle : Include.Handle) : List Char :=
  Text.normaliseNewlines (Utf8.decode handle.data)

theorem runStripped_action (h : Include.Handler σ) (nested : Option (FileRunner σ)) (file : String)
    (number : Nat) (a : Action) (st : FileState σ) :
    runStripped h nested file number (.action a) st =
      if Group.keeps st.groups then
        { st with
          session := (runAction h nested file a st.session).1.report file number
            (runAction h nested file a st.session).2 }
      else st := rfl

/-- A line that includes nothing is run alike whatever may be included. -/
theorem runStripped_of_target?_eq_none {h : Include.Handler σ} {nested : Option (FileRunner σ)}
    {file : String} {number : Nat} {line : Line} {st : FileState σ}
    (ht : line.target? st.session.macros st.groups = none) :
    runStripped h nested file number line st = runStripped h none file number line st := by
  cases line with
  | conditional c => rfl
  | text t => rfl
  | action a =>
    rw [runStripped_action, runStripped_action]
    cases a with
    | «include» arguments =>
      cases hk : Group.keeps st.groups with
      | false => rfl
      | true =>
        cases hi : includeTarget st.session.macros arguments with
        | error fault => rw [runAction, runAction, runInclude, runInclude, hi]
        | ok target =>
          rw [Line.target?, hk, hi] at ht
          cases ht
    | _ => rfl

theorem exists_of_target?_eq_some {macros : MacroTable} {groups : List Group} {line : Line}
    {target : Include.Kind × List Char} (ht : line.target? macros groups = some target) :
    ∃ arguments, line = .action (.include arguments) ∧ Group.keeps groups = true ∧
      includeTarget macros arguments = .ok target := by
  unfold Line.target? at ht
  split at ht
  · next arguments =>
    cases hk : Group.keeps groups with
    | false =>
      rw [hk] at ht
      cases ht
    | true =>
      cases hi : includeTarget macros arguments with
      | error fault =>
        rw [hk, hi] at ht
        cases ht
      | ok found =>
        rw [hk, hi] at ht
        cases ht
        exact ⟨arguments, rfl, rfl, hi⟩
  · cases ht

section

variable {h : Include.Handler σ} {file : String} {number : Nat} {line : Line} {st : FileState σ}
  {kind : Include.Kind} {name : List Char}
  (ht : line.target? st.session.macros st.groups = some (kind, name))

include ht

/-- Where nothing may be included any more, asking for a file is a fault, and no one is asked. -/
theorem runStripped_none_of_target? :
    runStripped h none file number line st =
      { st with session := st.session.report file number (some .includeTooDeep) } := by
  obtain ⟨arguments, rfl, hk, hi⟩ := exists_of_target?_eq_some ht
  rw [runStripped_action, if_pos hk, runAction, runInclude, hi]

theorem runStripped_some_of_failed {run : FileRunner σ} {failure : Include.Failure} {handler : σ}
    (ha : h.acquire st.session.handler ⟨kind, String.ofList name, some file⟩ =
      (.error failure, handler)) :
    runStripped h (some run) file number line st =
      { st with
        session := ({ st.session with handler }).report file number
          (some (.includeFailed name failure)) } := by
  obtain ⟨arguments, rfl, hk, hi⟩ := exists_of_target?_eq_some ht
  rw [runStripped_action, if_pos hk, runAction, runInclude, hi]
  dsimp only
  rw [ha]

theorem runStripped_some_of_opened {run : FileRunner σ} {handle : Include.Handle} {handler : σ}
    (ha : h.acquire st.session.handler ⟨kind, String.ofList name, some file⟩ =
      (.ok handle, handler)) :
    runStripped h (some run) file number line st =
      { st with
        session := run (String.ofList name) (includedText handle)
          { st.session with handler := h.release handler handle } } := by
  obtain ⟨arguments, rfl, hk, hi⟩ := exists_of_target?_eq_some ht
  rw [runStripped_action, if_pos hk, runAction, runInclude, hi]
  dsimp only
  rw [ha]
  rfl

end

/-! ## Runs -/

/-- A file that has been begun and is not finished: its name, the lines that are still to come, the
line that faults at its end are reported at, and what is open before the next line. -/
structure PendingFile where
  name : String
  lines : List LogicalLine
  last : Nat
  groups : List Group
  inBlock : Bool

namespace PendingFile

/-- A file before its first line. -/
def start (name : String) (text : List Char) : PendingFile :=
  { name, lines := LogicalLine.ofText text, last := lastLine text, groups := [], inBlock := false }

/-- Where the reading of the file stands, in a session. -/
def state (f : PendingFile) (s : Session σ) : FileState σ := ⟨f.groups, f.inBlock, s⟩

/-- What the next line is, without its comments. -/
def next (f : PendingFile) (line : LogicalLine) : Line :=
  Line.classify (stripComments f.inBlock line.text).1

/-- The file after its next line, with the groups that are open then. -/
def passed (f : PendingFile) (line : LogicalLine) (lines : List LogicalLine)
    (groups : List Group) : PendingFile :=
  { f with lines, groups, inBlock := (stripComments f.inBlock line.text).2 }

end PendingFile

/-- What a line asked of the handler, and was answered. -/
structure Exchange where
  line : Nat
  request : Include.Request
  answer : Except Include.Failure Include.Handle

/-- Where a run stands: the files that are pending, innermost first, the session, and what has been
asked of the handler so far. -/
structure IncludeRun (σ : Type) where
  files : List PendingFile
  session : Session σ
  exchanges : List Exchange

namespace IncludeRun

/-- The run that is about to begin. -/
def start (source : Source) (handler : σ) : IncludeRun σ where
  files := [.start source.filename source.text.toList]
  session := { macros := predefine source.definitions, output := #[], diagnostics := #[], handler }
  exchanges := []

/-- The file that a line includes, as long as no more than `maxDepth` files are pending already
inside the source.  `outer` is what is pending around the file of the line. -/
def asked? (maxDepth : Nat) (f : PendingFile) (outer : List PendingFile) (line : LogicalLine)
    (macros : MacroTable) : Option (Include.Kind × List Char) :=
  if outer.length < maxDepth then (f.next line).target? macros f.groups else none

/-- One line of the innermost file, or its end.  An include file is opened, closed, and put in
front of the others. -/
def step (h : Include.Handler σ) (maxDepth : Nat) (r : IncludeRun σ) : IncludeRun σ :=
  match r.files with
  | [] => r
  | f :: outer =>
    match f.lines with
    | [] => { r with files := outer, session := finish f.name f.last (f.state r.session) }
    | line :: lines =>
      match asked? maxDepth f outer line r.session.macros with
      | none =>
        let st := runLine h none f.name (f.state r.session) line
        { r with files := f.passed line lines st.groups :: outer, session := st.session }
      | some (kind, name) =>
        let request : Include.Request := ⟨kind, String.ofList name, some f.name⟩
        match h.acquire r.session.handler request with
        | (.error failure, handler) =>
          { files := f.passed line lines f.groups :: outer
            session := ({ r.session with handler }).report f.name line.number
              (some (.includeFailed name failure))
            exchanges := r.exchanges ++ [⟨line.number, request, .error failure⟩] }
        | (.ok handle, handler) =>
          { files := .start request.name (includedText handle) ::
              f.passed line lines f.groups :: outer
            session := { r.session with handler := h.release handler handle }
            exchanges := r.exchanges ++ [⟨line.number, request, .ok handle⟩] }

variable {h : Include.Handler σ} {maxDepth : Nat}

/-- Everything that a step can do. -/
inductive Stepped (h : Include.Handler σ) (maxDepth : Nat) : IncludeRun σ → IncludeRun σ → Prop
  | finished {f : PendingFile} {outer : List PendingFile} {s : Session σ} {es : List Exchange}
      (hf : f.lines = []) :
      Stepped h maxDepth ⟨f :: outer, s, es⟩ ⟨outer, finish f.name f.last (f.state s), es⟩
  | passed {f : PendingFile} {outer : List PendingFile} {s : Session σ} {es : List Exchange}
      {line : LogicalLine} {lines : List LogicalLine} (hf : f.lines = line :: lines)
      (hasked : asked? maxDepth f outer line s.macros = none) :
      Stepped h maxDepth ⟨f :: outer, s, es⟩
        ⟨f.passed line lines (runLine h none f.name (f.state s) line).groups :: outer,
          (runLine h none f.name (f.state s) line).session, es⟩
  | failed {f : PendingFile} {outer : List PendingFile} {s : Session σ} {es : List Exchange}
      {line : LogicalLine} {lines : List LogicalLine} {kind : Include.Kind} {name : List Char}
      {failure : Include.Failure} {handler : σ} (hf : f.lines = line :: lines)
      (hasked : asked? maxDepth f outer line s.macros = some (kind, name))
      (hanswer : h.acquire s.handler ⟨kind, String.ofList name, some f.name⟩ =
        (.error failure, handler)) :
      Stepped h maxDepth ⟨f :: outer, s, es⟩
        ⟨f.passed line lines f.groups :: outer,
          ({ s with handler }).report f.name line.number (some (.includeFailed name failure)),
          es ++ [⟨line.number, ⟨kind, String.ofList name, some f.name⟩, .error failure⟩]⟩
  | opened {f : PendingFile} {outer : List PendingFile} {s : Session σ} {es : List Exchange}
      {line : LogicalLine} {lines : List LogicalLine} {kind : Include.Kind} {name : List Char}
      {handle : Include.Handle} {handler : σ} (hf : f.lines = line :: lines)
      (hasked : asked? maxDepth f outer line s.macros = some (kind, name))
      (hanswer : h.acquire s.handler ⟨kind, String.ofList name, some f.name⟩ =
        (.ok handle, handler)) :
      Stepped h maxDepth ⟨f :: outer, s, es⟩
        ⟨.start (String.ofList name) (includedText handle) :: f.passed line lines f.groups :: outer,
          { s with handler := h.release handler handle },
          es ++ [⟨line.number, ⟨kind, String.ofList name, some f.name⟩, .ok handle⟩]⟩

theorem Stepped.step_eq {r r' : IncludeRun σ} (hr : Stepped h maxDepth r r') :
    step h maxDepth r = r' := by
  cases hr with
  | finished hf => simp only [step, hf]
  | passed hf hasked => simp only [step, hf, hasked]
  | failed hf hasked hanswer => simp only [step, hf, hasked, hanswer]
  | opened hf hasked hanswer => simp only [step, hf, hasked, hanswer]

theorem stepped_step {r : IncludeRun σ} (hr : r.files ≠ []) :
    Stepped h maxDepth r (step h maxDepth r) := by
  obtain ⟨files, s, es⟩ := r
  cases files with
  | nil => exact absurd rfl hr
  | cons f outer =>
    have key : ∃ r', Stepped h maxDepth ⟨f :: outer, s, es⟩ r' := by
      cases hf : f.lines with
      | nil => exact ⟨_, .finished hf⟩
      | cons line lines =>
        cases hasked : asked? maxDepth f outer line s.macros with
        | none => exact ⟨_, .passed hf hasked⟩
        | some target =>
          obtain ⟨kind, name⟩ := target
          rcases hanswer : h.acquire s.handler ⟨kind, String.ofList name, some f.name⟩ with
            ⟨failure | handle, handler⟩
          · exact ⟨_, .failed hf hasked hanswer⟩
          · exact ⟨_, .opened hf hasked hanswer⟩
    obtain ⟨r', hr'⟩ := key
    rw [hr'.step_eq]
    exact hr'

/-! ## Runs end -/

theorem state_passed_runLine (nested : Option (FileRunner σ)) (f : PendingFile) (line : LogicalLine)
    (lines : List LogicalLine) (s : Session σ) :
    (f.passed line lines (runLine h nested f.name (f.state s) line).groups).state
        (runLine h nested f.name (f.state s) line).session =
      runLine h nested f.name (f.state s) line := by
  rw [runLine_eq]
  rfl

section

variable {f : PendingFile} {outer : List PendingFile} {line : LogicalLine} {s : Session σ}
  {depth : Nat} (hdepth : outer.length + depth = maxDepth)

include hdepth

theorem runLine_of_asked?_eq_none (hasked : asked? maxDepth f outer line s.macros = none) :
    runLine h (included h depth) f.name (f.state s) line =
      runLine h none f.name (f.state s) line := by
  cases depth with
  | zero => rfl
  | succ depth =>
    rw [asked?, if_pos (by omega)] at hasked
    have ht : (f.next line).target? ((f.passed line [] f.groups).state s).session.macros
        ((f.passed line [] f.groups).state s).groups = none := hasked
    exact runStripped_of_target?_eq_none ht

/-- Only where something may still be included is anyone asked. -/
theorem exists_depth_of_asked? {target : Include.Kind × List Char}
    (hasked : asked? maxDepth f outer line s.macros = some target) :
    ∃ less, depth = less + 1 ∧ (f.next line).target? s.macros f.groups = some target := by
  rw [asked?] at hasked
  split at hasked
  · next hlt =>
    obtain ⟨less, rfl⟩ := Nat.exists_eq_succ_of_ne_zero (show depth ≠ 0 by omega)
    exact ⟨less, rfl, hasked⟩
  · cases hasked

end

/-- The file is finished after some steps, and leaves the session that its lines leave if so many
includes may be nested. -/
def Finishes (h : Include.Handler σ) (maxDepth depth : Nat) (f : PendingFile) : Prop :=
  ∀ (outer : List PendingFile) (s : Session σ) (es : List Exchange),
    outer.length + depth = maxDepth → ∃ n es', (step h maxDepth)^[n] ⟨f :: outer, s, es⟩ =
      ⟨outer,
        finish f.name f.last (f.lines.foldl (runLine h (included h depth) f.name) (f.state s)), es'⟩

theorem finishes_of_nil {depth : Nat} {f : PendingFile} (hf : f.lines = []) :
    Finishes h maxDepth depth f := by
  intro outer s es _
  refine ⟨1, es, ?_⟩
  rw [Function.iterate_one, (Stepped.finished hf).step_eq, hf]
  rfl

/-- A line is gone after one step and, if it includes a file, the steps of that; what it leaves is
what `runLine` says. -/
theorem exists_iterate_step_line {depth : Nat} {f : PendingFile} {outer : List PendingFile}
    {line : LogicalLine} {lines : List LogicalLine} (hf : f.lines = line :: lines)
    (hnested : ∀ less, depth = less + 1 → ∀ g, Finishes h maxDepth less g)
    (hdepth : outer.length + depth = maxDepth) (s : Session σ) (es : List Exchange) :
    ∃ n groups s' es',
      (step h maxDepth)^[n] ⟨f :: outer, s, es⟩ = ⟨f.passed line lines groups :: outer, s', es'⟩ ∧
        runLine h (included h depth) f.name (f.state s) line =
          (f.passed line lines groups).state s' := by
  cases hasked : asked? maxDepth f outer line s.macros with
  | none =>
    refine ⟨1, _, _, es, (Stepped.passed hf hasked).step_eq, ?_⟩
    rw [state_passed_runLine, runLine_of_asked?_eq_none hdepth hasked]
  | some target =>
    obtain ⟨kind, name⟩ := target
    obtain ⟨less, rfl, ht⟩ := exists_depth_of_asked? hdepth hasked
    change (f.next line).target? ((f.passed line [] f.groups).state s).session.macros
      ((f.passed line [] f.groups).state s).groups = some (kind, name) at ht
    rcases hanswer : h.acquire s.handler ⟨kind, String.ofList name, some f.name⟩ with
      ⟨failure | handle, handler⟩
    · exact ⟨1, f.groups, _, _, (Stepped.failed hf hasked hanswer).step_eq,
        runStripped_some_of_failed ht hanswer⟩
    · have hlength : (f.passed line lines f.groups :: outer).length + less = maxDepth := by
        rw [List.length_cons]
        omega
      obtain ⟨n, es', hn⟩ := hnested less rfl
        (.start (String.ofList name) (includedText handle)) (f.passed line lines f.groups :: outer)
        { s with handler := h.release handler handle }
        (es ++ [⟨line.number, ⟨kind, String.ofList name, some f.name⟩, .ok handle⟩]) hlength
      refine ⟨n + 1, f.groups, _, es', ?_, runStripped_some_of_opened ht hanswer⟩
      rw [Function.iterate_succ_apply, (Stepped.opened hf hasked hanswer).step_eq, hn,
        runFile_eq_runLines]
      rfl

theorem finishes_of_cons {depth : Nat} {f : PendingFile} {line : LogicalLine}
    {lines : List LogicalLine} (hf : f.lines = line :: lines)
    (hrest : ∀ groups, Finishes h maxDepth depth (f.passed line lines groups))
    (hnested : ∀ less, depth = less + 1 → ∀ g, Finishes h maxDepth less g) :
    Finishes h maxDepth depth f := by
  intro outer s es hdepth
  obtain ⟨m, groups, s', es₁, hm, hline⟩ := exists_iterate_step_line hf hnested hdepth s es
  obtain ⟨n, es₂, hn⟩ := hrest groups outer s' es₁ hdepth
  refine ⟨n + m, es₂, ?_⟩
  rw [Function.iterate_add_apply, hm, hn, hf, List.foldl_cons, hline]
  rfl

/-- **Every file is finished, whatever the handler does.**  The number of includes that may still
be nested goes down with every file that is opened, and the number of lines with every line. -/
theorem finishes (depth : Nat) (f : PendingFile) : Finishes h maxDepth depth f := by
  induction depth generalizing f with
  | zero =>
    induction hf : f.lines generalizing f with
    | nil => exact finishes_of_nil hf
    | cons line lines ih => exact finishes_of_cons hf (fun groups => ih _ rfl) nofun
  | succ depth ihd =>
    induction hf : f.lines generalizing f with
    | nil => exact finishes_of_nil hf
    | cons line lines ih =>
      refine finishes_of_cons hf (fun groups => ih _ rfl) fun less hless g => ?_
      cases hless
      exact ihd g

/-- **A run ends**, in the session of `runSource`. -/
theorem exists_iterate_step_start (h : Include.Handler σ) (maxDepth : Nat) (source : Source)
    (handler : σ) :
    ∃ n es, (step h maxDepth)^[n] (start source handler) =
      ⟨[], runSource h maxDepth source handler, es⟩ := by
  obtain ⟨n, es, hn⟩ := finishes maxDepth (.start source.filename source.text.toList) []
    (start source handler).session [] (Nat.zero_add maxDepth)
  refine ⟨n, es, hn.trans ?_⟩
  rw [runSource, runFile_eq_runLines]
  rfl

end IncludeRun

end Preprocess
end ShaderKit
