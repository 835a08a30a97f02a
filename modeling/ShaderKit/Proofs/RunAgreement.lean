import ShaderKit.Proofs.IncludeFailure
import ShaderKit.Proofs.IncludeStack
import ShaderKit.Proofs.TextSeams

/-!
# What a run does not depend on

Two runs over the same lines come to the same macros, the same output and the same messages
(`Session.Agrees`) although

* the file has another name in one of them, and its lines have other numbers;
* the handlers have states of their own, as long as they serve the same files
  (`Include.Handler.Serves`);
* there is more room for includes in one of them, as long as the other never runs out of it
  (`Session.Shallow`).

`agrees_runStrippedLines` says so for the lines of a file, provided that it is true of the files
that they include, and `agreeNested_included` adds the induction on the includes that may be nested.

A line includes a file or does not, and that is known from the macros and the groups alone
(`Line.target?`).  If it does not, the line has the same effect on both sides, as its effect is a
function of what the sessions have in common (`exists_runStripped_eq`).  If it does, the handlers
are asked for the same name.  They may give it different handles, and may be in whatever state, but
the bytes are the same, and what is run on them comes to the same by the induction.

The room for includes is compared in one direction.  The run with less of it sets the condition: if
it never runs out, then neither does the other, and there is nothing to assume of that one.  That an
include was one too many cannot be undone later on, since diagnostics are only ever added
(`onlyExtends_included`); so what is known of the end of a run is known of each line in it.
-/

set_option autoImplicit false

namespace ShaderKit

/-- What the handler opens, and what it cannot open, is settled by the name alone: `files` tells the
bytes. -/
def Include.Handler.Serves {σ : Type} (h : Include.Handler σ)
    (files : String → Except Include.Failure (List UInt8)) : Prop :=
  ∀ (s : σ) (request : Include.Request),
    (h.acquire s request).1.map (·.data) = files request.name

namespace Preprocess

variable {σ τ : Type}

/-! ## Diagnostics are only added -/

/-- The second session has reported all that the first one has, and perhaps more after it. -/
def Session.Extends (s s' : Session σ) : Prop :=
  s.diagnostics.toList <+: s'.diagnostics.toList

theorem Session.Extends.trans {s s' s'' : Session σ} (h : s.Extends s') (h' : s'.Extends s'') :
    s.Extends s'' :=
  List.IsPrefix.trans h h'

theorem extends_of_eq {s s' : Session σ} (h : s'.diagnostics = s.diagnostics) : s.Extends s' := by
  simp [Session.Extends, h]

/-- A report is put behind those that there are. -/
theorem extends_report (s : Session σ) (file : String) (line : Nat) (fault : Option Fault) :
    s.Extends (s.report file line fault) := by
  cases fault with
  | none => exact extends_of_eq rfl
  | some fault =>
    change s.diagnostics.toList <+:
      (s.diagnostics.push (.ofPosition (some file) line fault.message)).toList
    rw [Array.toList_push]
    exact List.prefix_append _ _

theorem extends_runStripped_none (h : Include.Handler σ) (file : String) (number : Nat)
    (line : Line) (st : FileState σ) :
    st.session.Extends (runStripped h none file number line st).session := by
  obtain ⟨groups, inBlock, s⟩ := st
  obtain ⟨_, macros, output, fault, hrun⟩ :=
    exists_runStripped_eq line groups s.macros s.output
  have hextends := extends_report ⟨macros, output, s.diagnostics, s.handler⟩ file number fault
  rw [hrun h file number inBlock s.diagnostics s.handler]
  exact hextends

/-- What may be run inside a file only adds to the diagnostics. -/
def OnlyExtends (nested : Option (FileRunner σ)) : Prop :=
  ∀ run ∈ nested, ∀ (file : String) (text : List Char) (s : Session σ),
    s.Extends (run file text s)

section

variable {h : Include.Handler σ} {nested : Option (FileRunner σ)} (hnested : OnlyExtends nested)

include hnested

/-- A line only adds to the diagnostics, those of the file that it includes among them. -/
theorem extends_runStripped (file : String) (number : Nat) (line : Line) (st : FileState σ) :
    st.session.Extends (runStripped h nested file number line st).session := by
  cases ht : line.target? st.session.macros st.groups with
  | none =>
    rw [runStripped_of_target?_eq_none ht]
    exact extends_runStripped_none h file number line st
  | some target =>
    obtain ⟨kind, name⟩ := target
    cases nested with
    | none => exact extends_runStripped_none h file number line st
    | some run =>
      rcases hanswer : h.acquire st.session.handler ⟨kind, String.ofList name, some file⟩ with
        ⟨failure | handle, handler⟩
      · rw [runStripped_some_of_failed ht hanswer]
        exact extends_report { st.session with handler } file number _
      · rw [runStripped_some_of_opened ht hanswer]
        exact hnested run rfl _ _ { st.session with handler := h.release handler handle }

theorem extends_runStrippedLines (file : String) (lines : List StrippedLine) (st : FileState σ) :
    st.session.Extends (runStrippedLines h nested file lines st).session := by
  induction lines generalizing st with
  | nil => exact extends_of_eq rfl
  | cons l lines ih => exact (extends_runStripped hnested file l.number l.line st).trans (ih _)

end

theorem extends_finish (file : String) (last : Nat) (st : FileState σ) (inBlock : Bool) :
    st.session.Extends (finish file last { st with inBlock }) :=
  (extends_report _ _ _ _).trans (extends_report _ _ _ _)

/-- A file is its lines without their comments, and what is reported at its end. -/
theorem runFile_eq_finish (h : Include.Handler σ) (depth : Nat) (file : String) (text : List Char)
    (s : Session σ) :
    runFile h depth file text s =
      finish file (lastLine text)
        { runStrippedLines h (included h depth) file
            (strippedLines false (LogicalLine.ofText text)).1 ⟨[], false, s⟩ with
          inBlock := (strippedLines false (LogicalLine.ofText text)).2 } := by
  rw [runFile_eq_runLines, runLines, foldl_runLine]

/-- **A file only adds to the diagnostics**, however deep its includes are nested. -/
theorem onlyExtends_included (h : Include.Handler σ) (depth : Nat) :
    OnlyExtends (included h depth) := by
  induction depth with
  | zero => exact nofun
  | succ depth ih =>
    rintro _ ⟨⟩ file text s
    rw [runFile_eq_finish]
    exact (extends_runStrippedLines ih file _ ⟨[], false, s⟩).trans (extends_finish _ _ _ _)

/-! ## Outcomes -/

theorem diagnostics_ofParts (ds : List Diagnostic) (output : List UInt8) :
    (Outcome.ofParts ds output).diagnostics = ds := by
  cases ds with
  | nil => rfl
  | cons d ds => rfl

/-- A run succeeds if nothing was reported, and then with what it has put out. -/
theorem ofParts_eq_success_iff {ds : List Diagnostic} {given output : List UInt8} :
    Outcome.ofParts ds given = .success output ↔ ds = [] ∧ given = output := by
  rw [Outcome.ofParts]
  cases ds <;> simp

/-! ## Agreement -/

namespace Session

/-- The messages of a session, in the order in which they were reported. -/
def messages (s : Session σ) : List String := s.diagnostics.toList.map (·.message)

/-- No include has been one too many. -/
def Shallow (s : Session σ) : Prop := Fault.includeTooDeep.message ∉ s.messages

/-- The sessions differ in the handlers, and in the places that diagnostics give, at most. -/
structure Agrees (s : Session σ) (t : Session τ) : Prop where
  macros : s.macros = t.macros
  output : s.output = t.output
  messages : s.messages = t.messages

/-- If no include has been one too many at the end, then none had been before. -/
theorem Extends.shallow {s s' : Session σ} (h : s.Extends s') (hs : s'.Shallow) : s.Shallow :=
  fun hmem => hs ((h.map (·.message)).subset hmem)

theorem Agrees.refl (s : Session σ) : s.Agrees s := ⟨rfl, rfl, rfl⟩

theorem messages_report (s : Session σ) (file : String) (line : Nat) (fault : Option Fault) :
    (s.report file line fault).messages = s.messages ++ fault.toList.map Fault.message := by
  cases fault with
  | none => exact (List.append_nil _).symm
  | some fault =>
    change (s.diagnostics.push (.ofPosition (some file) line fault.message)).toList.map
      (·.message) = _
    rw [Array.toList_push, List.map_append]
    rfl

theorem not_shallow_report (s : Session σ) (file : String) (line : Nat) :
    ¬(s.report file line (some .includeTooDeep)).Shallow := by
  rw [Shallow, messages_report, not_not]
  exact List.mem_append_right _ (List.mem_singleton_self _)

theorem Agrees.handlers {s : Session σ} {t : Session τ} (h : s.Agrees t) (x : σ) (y : τ) :
    Agrees { s with handler := x } { t with handler := y } :=
  ⟨h.macros, h.output, h.messages⟩

/-- The same fault, wherever it is reported, is the same message. -/
theorem Agrees.report {s : Session σ} {t : Session τ} (h : s.Agrees t) (file file' : String)
    (line line' : Nat) (fault : Option Fault) :
    (s.report file line fault).Agrees (t.report file' line' fault) where
  macros := by
    cases fault with
    | none => exact h.macros
    | some fault => exact h.macros
  output := by
    cases fault with
    | none => exact h.output
    | some fault => exact h.output
  messages := by rw [messages_report, messages_report, h.messages]

end Session

/-- The readings stand at the same place, in sessions that agree. -/
structure FileState.Agrees (st : FileState σ) (st' : FileState τ) : Prop where
  groups : st.groups = st'.groups
  inBlock : st.inBlock = st'.inBlock
  session : st.session.Agrees st'.session

/-- A line that may not include anything. -/
theorem agrees_runStripped_none (h : Include.Handler σ) (h' : Include.Handler τ)
    (file file' : String) (number number' : Nat) (line : Line) {st : FileState σ}
    {st' : FileState τ} (hst : st.Agrees st') :
    (runStripped h none file number line st).Agrees
      (runStripped h' none file' number' line st') := by
  obtain ⟨groups, inBlock, ⟨macros, output, diagnostics, x⟩⟩ := st
  obtain ⟨_, _, ⟨_, _, diagnostics', y⟩⟩ := st'
  obtain ⟨rfl, rfl, ⟨rfl, rfl, hmessages⟩⟩ := hst
  obtain ⟨_, macros', output', fault, hrun⟩ := exists_runStripped_eq line groups macros output
  rw [hrun h file number inBlock diagnostics x, hrun h' file' number' inBlock diagnostics' y]
  have hbefore : Session.Agrees ⟨macros', output', diagnostics, x⟩
      ⟨macros', output', diagnostics', y⟩ := ⟨rfl, rfl, hmessages⟩
  exact ⟨rfl, rfl, hbefore.report file file' number number' fault⟩

theorem agrees_finish {st : FileState σ} {st' : FileState τ} (hst : st.Agrees st')
    (file file' : String) (last last' : Nat) (inBlock : Bool) :
    (finish file last { st with inBlock }).Agrees (finish file' last' { st' with inBlock }) := by
  rw [finish, finish, hst.groups]
  exact (hst.session.report _ _ _ _ _).report _ _ _ _ _

/-! ## Runs that agree -/

/-- Whatever `nested` may run, `nested'` may run too, and comes to the same unless an include is one
too many. -/
def AgreeNested (nested : Option (FileRunner σ)) (nested' : Option (FileRunner τ)) : Prop :=
  ∀ run ∈ nested, ∃ run' ∈ nested', ∀ (file : String) (text : List Char) (s : Session σ)
    (t : Session τ), s.Agrees t → (run file text s).Shallow →
      (run file text s).Agrees (run' file text t)

section

variable {h : Include.Handler σ} {h' : Include.Handler τ}
  {files : String → Except Include.Failure (List UInt8)} (hfiles : h.Serves files)
  (hfiles' : h'.Serves files)

section

variable {nested : Option (FileRunner σ)} {nested' : Option (FileRunner τ)}
  (hnested : AgreeNested nested nested')

include hfiles hfiles' hnested

/-- One line, on both sides: the handlers are asked for the same file, and answer alike. -/
theorem agrees_runStripped (file file' : String) (number number' : Nat) (line : Line)
    {st : FileState σ} {st' : FileState τ} (hst : st.Agrees st')
    (hshallow : (runStripped h nested file number line st).session.Shallow) :
    (runStripped h nested file number line st).Agrees
      (runStripped h' nested' file' number' line st') := by
  cases ht : line.target? st.session.macros st.groups with
  | none =>
    have ht' : line.target? st'.session.macros st'.groups = none := by
      rw [← hst.session.macros, ← hst.groups, ht]
    rw [runStripped_of_target?_eq_none ht, runStripped_of_target?_eq_none ht']
    exact agrees_runStripped_none h h' file file' number number' line hst
  | some target =>
    obtain ⟨kind, name⟩ := target
    have ht' : line.target? st'.session.macros st'.groups = some (kind, name) := by
      rw [← hst.session.macros, ← hst.groups, ht]
    cases nested with
    | none =>
      rw [runStripped_none_of_target? ht] at hshallow
      exact absurd hshallow (Session.not_shallow_report _ file number)
    | some run =>
      obtain ⟨run', hrun', hagree⟩ := hnested run rfl
      cases hrun'
      have hsame := (hfiles st.session.handler ⟨kind, String.ofList name, some file⟩).trans
        (hfiles' st'.session.handler ⟨kind, String.ofList name, some file'⟩).symm
      rcases hanswer : h.acquire st.session.handler ⟨kind, String.ofList name, some file⟩ with
        ⟨failure | handle, handler⟩
      · rcases hanswer' : h'.acquire st'.session.handler ⟨kind, String.ofList name, some file'⟩
          with ⟨failure' | handle', handler'⟩
        · rw [hanswer, hanswer'] at hsame
          cases hsame
          rw [runStripped_some_of_failed ht hanswer, runStripped_some_of_failed ht' hanswer']
          exact ⟨hst.groups, hst.inBlock, (hst.session.handlers handler handler').report file file'
            number number' (some (.includeFailed name failure))⟩
        · rw [hanswer, hanswer'] at hsame
          cases hsame
      · rcases hanswer' : h'.acquire st'.session.handler ⟨kind, String.ofList name, some file'⟩
          with ⟨failure' | handle', handler'⟩
        · rw [hanswer, hanswer'] at hsame
          cases hsame
        · rw [hanswer, hanswer'] at hsame
          have hdata : handle.data = handle'.data := Except.ok.inj hsame
          rw [runStripped_some_of_opened ht hanswer] at hshallow ⊢
          rw [runStripped_some_of_opened ht' hanswer']
          have htext : includedText handle = includedText handle' := by
            rw [includedText, includedText, hdata]
          refine ⟨hst.groups, hst.inBlock, ?_⟩
          rw [← htext]
          exact hagree _ _ _ _ (hst.session.handlers _ _) hshallow

/-- Lines that say the same, one by one; their numbers do not matter. -/
theorem agrees_runStrippedLines (hextends : OnlyExtends nested) (file file' : String)
    {lines lines' : List StrippedLine} (hlines : SameLines lines lines') {st : FileState σ}
    {st' : FileState τ} (hst : st.Agrees st')
    (hshallow : (runStrippedLines h nested file lines st).session.Shallow) :
    (runStrippedLines h nested file lines st).Agrees
      (runStrippedLines h' nested' file' lines' st') := by
  induction lines generalizing lines' st st' with
  | nil =>
    rw [List.map_eq_nil_iff.1 hlines.symm]
    exact hst
  | cons l lines ih =>
    cases lines' with
    | nil => cases hlines
    | cons l' lines' =>
      rw [SameLines, List.map_cons, List.map_cons, List.cons.injEq] at hlines
      rw [runStrippedLines_cons] at hshallow ⊢
      rw [runStrippedLines_cons, ← hlines.1]
      refine ih hlines.2 ?_ hshallow
      exact agrees_runStripped hfiles hfiles' hnested file file' l.number l'.number l.line hst
        ((extends_runStrippedLines hextends file lines _).shallow hshallow)

end

include hfiles hfiles'

/-- A whole file, if the files that it includes agree. -/
theorem agrees_runFile_of_nested {depth depth' : Nat}
    (hnested : AgreeNested (included h depth) (included h' depth')) (file file' : String)
    (text : List Char) {s : Session σ} {t : Session τ} (hst : s.Agrees t)
    (hshallow : (runFile h depth file text s).Shallow) :
    (runFile h depth file text s).Agrees (runFile h' depth' file' text t) := by
  rw [runFile_eq_finish] at hshallow ⊢
  rw [runFile_eq_finish]
  have hstart : FileState.Agrees ⟨[], false, s⟩ ⟨[], false, t⟩ := ⟨rfl, rfl, hst⟩
  have hlines := agrees_runStrippedLines hfiles hfiles' hnested (onlyExtends_included h depth) file
    file' rfl hstart ((extends_finish _ _ _ _).shallow hshallow)
  exact agrees_finish hlines file file' _ _ _

/-- The room for includes makes no difference as long as it is enough. -/
theorem agreeNested_included {depth depth' : Nat} (hdepth : depth ≤ depth') :
    AgreeNested (included h depth) (included h' depth') := by
  induction depth generalizing depth' with
  | zero => exact nofun
  | succ depth ih =>
    obtain ⟨depth', rfl⟩ := Nat.exists_eq_succ_of_ne_zero (show depth' ≠ 0 by omega)
    rintro _ ⟨⟩
    have hless := ih (Nat.le_of_succ_le_succ hdepth)
    exact ⟨runFile h' depth', rfl, fun file text s t hst hshallow =>
      agrees_runFile_of_nested hfiles hfiles' hless file file text hst hshallow⟩

end

end Preprocess
end ShaderKit
