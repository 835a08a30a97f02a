import ShaderKit.Proofs.AbsentName
import ShaderKit.Proofs.IncludeProtocol
import ShaderKit.Proofs.PredefinedMacro

/-!
# A macro that nobody mentions

A definition from outside has no influence if its name occurs in no logical line of the source, in
none of a file that is included, and in the value of no other definition: with it, a run puts out
the same, reports the same and makes the same calls of the handler.

The two runs are compared step by step (`IncludeRun.AlikeBut`).  Their tables of macros differ all
the way, but in that one name only, and whatever looks something up has the name from a line that
does not mention it.  Which lines these are is known in advance: every pending line is one of the
source or of a file that has been opened (`IncludeRun.Chain`).
-/

set_option autoImplicit false

namespace ShaderKit
namespace Preprocess

variable {σ : Type} {name : List Char}

/-! ## Groups -/

theorem MacroTable.AlikeBut.apply_eq {table table' : MacroTable} (h : table.AlikeBut name table')
    {c : Conditional} (hsilent : Silent name (Line.conditional c).operand) (groups : List Group) :
    Group.apply table' c groups = Group.apply table c groups := by
  cases c with
  | opens opening arguments =>
    change Silent name arguments at hsilent
    rw [Group.apply, Group.apply, Group.openWith, Group.openWith, h.openingHolds_eq hsilent]
  | elif arguments =>
    change Silent name arguments at hsilent
    have helif : Group.elif table' arguments = Group.elif table arguments := by
      funext g
      rw [Group.elif, Group.elif, h.condition_eq hsilent]
    rw [Group.apply, Group.apply, helif]
  | otherwise => rfl
  | endif => rfl

/-! ## Lines -/

/-- The sessions differ in what they have to say about one name at most. -/
structure Session.AlikeBut (name : List Char) (s s' : Session σ) : Prop where
  macros : s.macros.AlikeBut name s'.macros
  output : s'.output = s.output
  diagnostics : s'.diagnostics = s.diagnostics
  handler : s'.handler = s.handler

namespace Session.AlikeBut

variable {s s' : Session σ} (hs : s.AlikeBut name s')

include hs

theorem emit (line : List Char) : (s.emit line).AlikeBut name (s'.emit line) :=
  ⟨hs.macros, congrArg (·.push line) hs.output, hs.diagnostics, hs.handler⟩

theorem report (file : String) (line : Nat) (fault : Option Fault) :
    (s.report file line fault).AlikeBut name (s'.report file line fault) := by
  cases fault with
  | none => exact hs
  | some fault =>
    refine ⟨hs.macros, hs.output, ?_, hs.handler⟩
    rw [Session.report, Session.report, hs.diagnostics]

theorem finish (f : PendingFile) :
    (finish f.name f.last (f.state s)).AlikeBut name (finish f.name f.last (f.state s')) :=
  (hs.report f.name f.last _).report f.name f.last _

theorem runText {line : List Char} (hsilent : Silent name line) :
    (runText line s).1.AlikeBut name (runText line s').1 ∧
      (Preprocess.runText line s').2 = (Preprocess.runText line s).2 := by
  rw [Preprocess.runText, Preprocess.runText, hs.macros.expand_eq hsilent.tokenize]
  cases expand s.macros (Preprocess.tokenize line) with
  | ok ts => exact ⟨hs.emit (spelling ts), rfl⟩
  | error e => exact ⟨hs, rfl⟩

theorem runAction (h : Include.Handler σ) (file : String) {a : Action}
    (hsilent : Silent name (Line.action a).operand) :
    (runAction h none file a s).1.AlikeBut name (runAction h none file a s').1 ∧
      (Preprocess.runAction h none file a s').2 = (Preprocess.runAction h none file a s).2 := by
  cases a with
  | nothing => exact ⟨hs, rfl⟩
  | define arguments =>
    rw [Preprocess.runAction, Preprocess.runAction]
    cases hdefinition : definition arguments with
    | error fault => exact ⟨hs, rfl⟩
    | ok target =>
      obtain ⟨found, m⟩ := target
      obtain ⟨hword, hpart, body, hbody, hm⟩ := definition_eq_ok hdefinition
      have hdefine := hs.macros.define? ((hsilent.mono hbody).avoids hm) (hsilent.ne hword hpart)
      simp only [bind, Except.bind]
      generalize s.macros.define? found m = table, s'.macros.define? found m = table' at hdefine ⊢
      cases hdefine with
      | none => exact ⟨hs, rfl⟩
      | some htable => exact ⟨⟨htable, hs.output, hs.diagnostics, hs.handler⟩, rfl⟩
  | undefine arguments =>
    rw [Preprocess.runAction, Preprocess.runAction]
    cases macroName "undef" arguments with
    | error fault => exact ⟨hs, rfl⟩
    | ok found =>
      exact ⟨⟨hs.macros.erase found, hs.output, hs.diagnostics, hs.handler⟩, rfl⟩
  | «include» arguments =>
    change Silent name arguments at hsilent
    rw [Preprocess.runAction, Preprocess.runAction, runInclude, runInclude,
      hs.macros.includeTarget_eq hsilent]
    cases includeTarget s.macros arguments with
    | error fault => exact ⟨hs, rfl⟩
    | ok target => exact ⟨hs, rfl⟩
  | error text => exact ⟨hs, rfl⟩
  | pragma line => exact ⟨hs.emit line, rfl⟩
  | unknown found => exact ⟨hs, rfl⟩

end Session.AlikeBut

/-- The states differ in what their tables have to say about one name at most. -/
structure FileState.AlikeBut (name : List Char) (st st' : FileState σ) : Prop where
  groups : st'.groups = st.groups
  inBlock : st'.inBlock = st.inBlock
  session : st.session.AlikeBut name st'.session

theorem FileState.AlikeBut.runStripped {st st' : FileState σ} (hst : st.AlikeBut name st')
    (h : Include.Handler σ) (file : String) (number : Nat) {line : Line}
    (hsilent : Silent name line.operand) :
    (runStripped h none file number line st).AlikeBut name
      (runStripped h none file number line st') := by
  obtain ⟨groups, inBlock, s⟩ := st
  obtain ⟨_, _, s'⟩ := st'
  obtain ⟨rfl, rfl, hs⟩ := hst
  replace hs : s.AlikeBut name s' := hs
  cases line with
  | conditional c =>
    rw [Preprocess.runStripped, Preprocess.runStripped, hs.macros.apply_eq hsilent]
    exact ⟨rfl, rfl, hs.report file number _⟩
  | action a =>
    rw [runStripped_action, runStripped_action]
    dsimp only
    split
    · obtain ⟨hsession, hfault⟩ := hs.runAction h file hsilent
      rw [hfault]
      exact ⟨rfl, rfl, hsession.report file number _⟩
    · exact ⟨rfl, rfl, hs⟩
  | text text =>
    change Silent name text at hsilent
    simp only [Preprocess.runStripped]
    split
    · obtain ⟨hsession, hfault⟩ := hs.runText hsilent
      rw [hfault]
      exact ⟨rfl, rfl, hsession.report file number _⟩
    · exact ⟨rfl, rfl, hs⟩

theorem FileState.AlikeBut.runLine {st st' : FileState σ} (hst : st.AlikeBut name st')
    (h : Include.Handler σ) (file : String) {line : LogicalLine}
    (hsilent : Silent name line.text) :
    (runLine h none file st line).AlikeBut name (runLine h none file st' line) := by
  have hstripped := hst.runStripped h file line.number
    (hsilent.stripComments st.inBlock).operand
  rw [runLine_eq, runLine_eq, hst.inBlock]
  exact ⟨hstripped.groups, rfl, hstripped.session⟩

theorem Line.target?_alikeBut {table table' : MacroTable} (h : table.AlikeBut name table')
    {line : Line} (hsilent : Silent name line.operand) (groups : List Group) :
    line.target? table' groups = line.target? table groups := by
  rw [Line.target?.eq_def, Line.target?.eq_def]
  split
  · next arguments =>
    change Silent name arguments at hsilent
    rw [h.includeTarget_eq hsilent]
  · rfl

/-! ## Runs -/

/-- All lines are silent about the name. -/
def SilentLines (name : List Char) (lines : List LogicalLine) : Prop :=
  ∀ line ∈ lines, Silent name line.text

namespace IncludeRun

/-- The runs stand at the same place and have done the same, but one name may stand for different
things. -/
structure AlikeBut (name : List Char) (r r' : IncludeRun σ) : Prop where
  files : r'.files = r.files
  session : r.session.AlikeBut name r'.session
  exchanges : r'.exchanges = r.exchanges

variable {h : Include.Handler σ} {maxDepth : Nat} {r r' : IncludeRun σ}

theorem asked?_alikeBut {f : PendingFile} {outer : List PendingFile} {line : LogicalLine}
    {table table' : MacroTable} (htable : table.AlikeBut name table')
    (hsilent : Silent name line.text) :
    asked? maxDepth f outer line table' = asked? maxDepth f outer line table := by
  rw [asked?, asked?, PendingFile.next,
    Line.target?_alikeBut htable (hsilent.stripComments f.inBlock).operand]

/-- **Both runs take the same step**, if the line it takes is silent about the name. -/
theorem AlikeBut.step (hr : r.AlikeBut name r')
    (hsilent : ∀ f ∈ r.files, SilentLines name f.lines) :
    (step h maxDepth r).AlikeBut name (step h maxDepth r') := by
  by_cases hfiles : r.files = []
  · rw [step_of_files_eq_nil hfiles, step_of_files_eq_nil (hr.files.trans hfiles)]
    exact hr
  have hstepped : Stepped h maxDepth r (IncludeRun.step h maxDepth r) := stepped_step hfiles
  generalize IncludeRun.step h maxDepth r = next at hstepped ⊢
  obtain ⟨_, s', _⟩ := r'
  obtain ⟨rfl, hs, rfl⟩ := hr
  cases hstepped with
  | @finished f outer s es hf =>
    rw [(Stepped.finished hf).step_eq]
    exact ⟨rfl, hs.finish f, rfl⟩
  | @passed f outer s es line lines hf hasked =>
    have hline : Silent name line.text := hsilent f (by simp) line (by simp [hf])
    have hasked' := (asked?_alikeBut hs.macros hline).trans hasked
    have hst : (f.state s).AlikeBut name (f.state s') := ⟨rfl, rfl, hs⟩
    have hrun := hst.runLine h f.name hline
    rw [(Stepped.passed hf hasked').step_eq, hrun.groups]
    exact ⟨rfl, hrun.session, rfl⟩
  | @failed f outer s es line lines kind found failure handler hf hasked hanswer =>
    have hline : Silent name line.text := hsilent f (by simp) line (by simp [hf])
    have hasked' := (asked?_alikeBut hs.macros hline).trans hasked
    have hanswer' := hs.handler ▸ hanswer
    rw [(Stepped.failed hf hasked' hanswer').step_eq]
    have hmore : Session.AlikeBut name { s with handler } { s' with handler } :=
      ⟨hs.macros, hs.output, hs.diagnostics, rfl⟩
    exact ⟨rfl, hmore.report f.name line.number (some (.includeFailed found failure)), rfl⟩
  | @opened f outer s es line lines kind found handle handler hf hasked hanswer =>
    have hline : Silent name line.text := hsilent f (by simp) line (by simp [hf])
    have hasked' := (asked?_alikeBut hs.macros hline).trans hasked
    have hanswer' := hs.handler ▸ hanswer
    rw [(Stepped.opened hf hasked' hanswer').step_eq]
    exact ⟨rfl, ⟨hs.macros, hs.output, hs.diagnostics, rfl⟩, rfl⟩

/-- What is pending is silent if the source is, and all files that have been opened. -/
theorem silentLines_of_chain {source : Source} {es : List Exchange} {files : List PendingFile}
    (hchain : Chain source es files)
    (htext : SilentLines name (LogicalLine.ofText source.text.toList))
    (hopened : ∀ e ∈ es, ∀ handle, e.answer = .ok handle →
      SilentLines name (LogicalLine.ofText (includedText handle))) :
    ∀ f ∈ files, SilentLines name f.lines := by
  induction hchain with
  | done => exact nofun
  | main hname hlines =>
    exact List.forall_mem_singleton.2 fun line hline => htext line (hlines.subset hline)
  | included he hanswer hname hparent hlines hchain ih =>
    refine List.forall_mem_cons.2 ⟨fun line hline => ?_, ih⟩
    exact hopened _ he _ hanswer line (hlines.subset hline)

/-- Exchanges are not forgotten. -/
theorem mem_exchanges_iterate_step {e : Exchange} {k : Nat}
    (he : e ∈ ((step h maxDepth)^[k] r).exchanges) (more : Nat) :
    e ∈ ((step h maxDepth)^[more + k] r).exchanges := by
  induction more with
  | zero => rwa [Nat.zero_add]
  | succ more ih =>
    rw [Nat.succ_add, Function.iterate_succ_apply']
    generalize (step h maxDepth)^[more + k] r = r at ih ⊢
    obtain hsame | ⟨last, -, hmore⟩ : (step h maxDepth r).exchanges = r.exchanges ∨
        ∃ last, Asks h maxDepth r last ∧ (step h maxDepth r).exchanges = r.exchanges ++ [last] :=
      exchanges_step r
    · rwa [hsame]
    · rw [hmore]
      exact List.mem_append_left _ ih

/-- What is written down as an answer is one that the handler has given. -/
theorem exists_answer_of_mem_exchanges {source : Source} {handler : σ} {e : Exchange} {n : Nat}
    (he : e ∈ ((step h maxDepth)^[n] (.start source handler)).exchanges) :
    ∃ s, e.answer = (h.acquire s e.request).1 := by
  induction n with
  | zero => cases he
  | succ n ih =>
    rw [Function.iterate_succ_apply'] at he
    generalize (step h maxDepth)^[n] (.start source handler) = r at ih he
    obtain hsame | ⟨last, hasks, hmore⟩ : (step h maxDepth r).exchanges = r.exchanges ∨
        ∃ last, Asks h maxDepth r last ∧ (step h maxDepth r).exchanges = r.exchanges ++ [last] :=
      exchanges_step r
    · exact ih (hsame ▸ he)
    · rw [hmore, List.mem_append, List.mem_singleton] at he
      rcases he with he | rfl
      · exact ih he
      · obtain ⟨-, -, -, -, -, -, -, -, -, -, -, -, hanswer⟩ := hasks
        exact ⟨_, hanswer⟩

/-- As long as the pending lines are silent about the name, the runs go on alike. -/
theorem AlikeBut.iterate_step (hr : r.AlikeBut name r') (n : Nat)
    (hsilent : ∀ k < n, ∀ f ∈ ((IncludeRun.step h maxDepth)^[k] r).files,
      SilentLines name f.lines) :
    ((IncludeRun.step h maxDepth)^[n] r).AlikeBut name
      ((IncludeRun.step h maxDepth)^[n] r') := by
  induction n with
  | zero => exact hr
  | succ n ih =>
    rw [Function.iterate_succ_apply', Function.iterate_succ_apply']
    exact (ih fun k hk => hsilent k (Nat.lt_succ_of_lt hk)).step (hsilent n (Nat.lt_succ_self n))

end IncludeRun

/-! ## Definitions from outside -/

/-- The table after some more definitions, as `predefine` makes it. -/
theorem alikeBut_foldl_insert {ds : List Definition} {table table' : MacroTable}
    (h : table.AlikeBut name table') (hvalues : ∀ e ∈ ds, Silent name e.value.toList) :
    (ds.foldl (fun table d => table.insert d.name.toList (.object d.value.toList)) table).AlikeBut
      name
      (ds.foldl (fun table d => table.insert d.name.toList (.object d.value.toList)) table') := by
  induction ds generalizing table table' with
  | nil => exact h
  | cons e ds ih =>
    obtain ⟨he, hds⟩ := List.forall_mem_cons.1 hvalues
    exact ih (h.insert (he.avoids rfl) e.name.toList) hds

/-- A run that starts with one more definition starts with a table that is alike. -/
theorem alikeBut_predefine {ds₁ ds₂ : List Definition} {d : Definition}
    (hvalues : ∀ e ∈ ds₁ ++ ds₂, Silent d.name.toList e.value.toList) :
    (predefine (ds₁ ++ ds₂)).AlikeBut d.name.toList (predefine (ds₁ ++ d :: ds₂)) := by
  have hempty : MacroTable.AlikeBut d.name.toList {} {} := ⟨fun _ _ => rfl, nofun⟩
  have hfront : (predefine ds₁).AlikeBut d.name.toList (predefine ds₁) :=
    alikeBut_foldl_insert hempty fun e he => hvalues e (List.mem_append_left ds₂ he)
  have hextra : (predefine ds₁).AlikeBut d.name.toList (predefine (ds₁ ++ [d])) := by
    refine ⟨fun other hother => ?_, hfront.avoids⟩
    rw [predefine_concat, MacroTable.get?_insert, if_neg hother]
  have hall := alikeBut_foldl_insert hextra fun e he => hvalues e (List.mem_append_right ds₁ he)
  rw [predefine, predefine, List.foldl_append, List.append_cons, List.foldl_append]
  exact hall

/-! ## Whole runs -/

/-- No logical line of the text has the name in it. -/
def Unmentioned (name text : List Char) : Prop :=
  ∀ line ∈ LogicalLine.ofText text, ¬ name <:+: line.text

/-- What the engine returns, and what a handler with books has heard. -/
theorem preprocess_recorded {h : Include.Handler σ} {maxDepth : Nat} {source : Source} {handler : σ}
    {n : Nat} {es : List Exchange} (hn : (IncludeRun.step h maxDepth)^[n] (.start source handler) =
      ⟨[], runSource h maxDepth source handler, es⟩) :
    (engine maxDepth).preprocess (recorded h) source (handler, []) =
      (.ofParts (runSource h maxDepth source handler).diagnostics.toList
          (Utf8.encode (runSource h maxDepth source handler).text),
        ((runSource h maxDepth source handler).handler, es.flatMap Exchange.calls)) := by
  simp only [engine]
  rw [IncludeRun.runSource_recorded hn]
  rfl

/-- The books of a run hold what the handler has answered. -/
theorem exists_answer_of_acquired {h : Include.Handler σ} {maxDepth : Nat} {source : Source}
    {handler : σ} {request : Include.Request} {answer : Except Include.Failure Include.Handle}
    (hmem : .acquired request answer ∈
      ((engine maxDepth).preprocess (recorded h) source (handler, [])).2.2) :
    ∃ s, answer = (h.acquire s request).1 := by
  obtain ⟨n, es, hn⟩ := IncludeRun.exists_iterate_step_start h maxDepth source handler
  rw [preprocess_recorded hn] at hmem
  obtain ⟨e, he, hcall⟩ := List.mem_flatMap.1 hmem
  have hlast : e ∈ ((IncludeRun.step h maxDepth)^[n] (.start source handler)).exchanges := by
    rw [hn]
    exact he
  obtain ⟨s, hanswer⟩ := IncludeRun.exists_answer_of_mem_exchanges hlast
  refine ⟨s, ?_⟩
  rw [Exchange.calls] at hcall
  split at hcall
  · cases List.mem_singleton.1 hcall
    exact hanswer
  · rcases List.mem_cons.1 hcall with hcall | hcall
    · cases hcall
      exact hanswer
    · cases List.mem_singleton.1 hcall

/-- The runs of two sources end together, and alike. -/
theorem alikeBut_runSource {h : Include.Handler σ} {maxDepth : Nat} {source source' : Source}
    {handler : σ} {n : Nat} {es : List Exchange}
    (hn : (IncludeRun.step h maxDepth)^[n] (.start source handler) =
      ⟨[], runSource h maxDepth source handler, es⟩)
    (hstart : IncludeRun.AlikeBut name (.start source handler) (.start source' handler))
    (htext : SilentLines name (LogicalLine.ofText source.text.toList))
    (hopened : ∀ e ∈ es, ∀ handle, e.answer = .ok handle →
      SilentLines name (LogicalLine.ofText (includedText handle))) :
    (IncludeRun.step h maxDepth)^[n] (.start source' handler) =
        ⟨[], runSource h maxDepth source' handler, es⟩ ∧
      (runSource h maxDepth source handler).AlikeBut name
        (runSource h maxDepth source' handler) := by
  have hsilent (k : Nat) (hk : k < n) :
      ∀ f ∈ ((IncludeRun.step h maxDepth)^[k] (.start source handler)).files,
        SilentLines name f.lines := by
    have hreached : IncludeRun.Reached h maxDepth source handler _ := ⟨k, rfl⟩
    refine IncludeRun.silentLines_of_chain hreached.kept.chain htext fun e he => hopened e ?_
    have hlater := IncludeRun.mem_exchanges_iterate_step he (n - k)
    rwa [Nat.sub_add_cancel (Nat.le_of_lt hk), hn] at hlater
  have hlast := hstart.iterate_step n hsilent
  rw [hn] at hlast
  obtain ⟨m, es', hm⟩ := IncludeRun.exists_iterate_step_start h maxDepth source' handler
  have hlast' := IncludeRun.iterate_step_unique rfl hlast.files hm rfl
  rw [hlast'] at hlast
  obtain ⟨-, hsession, rfl⟩ := hlast
  exact ⟨hlast', hsession⟩

/-- **A macro that nobody mentions has no influence.**  If a name is in no logical line of the
source, in none of any file that is opened, and in the value of no other definition, then to define
it as well, wherever among the other definitions, changes neither the output nor the diagnostics
nor the calls of the handler.  The names of the other definitions do not matter. -/
theorem preprocess_of_unmentioned (h : Include.Handler σ) (maxDepth : Nat)
    (filename text : String) (ds₁ ds₂ : List Definition) (d : Definition) (handler : σ)
    (htext : Unmentioned d.name.toList text.toList)
    (hvalues : ∀ e ∈ ds₁ ++ ds₂, ¬ d.name.toList <:+: e.value.toList)
    (hincluded : ∀ request handle,
      .acquired request (.ok handle) ∈ ((engine maxDepth).preprocess (recorded h)
        ⟨filename, text, ds₁ ++ ds₂⟩ (handler, [])).2.2 →
      Unmentioned d.name.toList (includedText handle)) :
    (engine maxDepth).preprocess (recorded h) ⟨filename, text, ds₁ ++ d :: ds₂⟩ (handler, []) =
      (engine maxDepth).preprocess (recorded h) ⟨filename, text, ds₁ ++ ds₂⟩ (handler, []) := by
  obtain ⟨n, es, hn⟩ :=
    IncludeRun.exists_iterate_step_start h maxDepth ⟨filename, text, ds₁ ++ ds₂⟩ handler
  have hrun := preprocess_recorded hn
  have hopened : ∀ e ∈ es, ∀ handle, e.answer = .ok handle →
      SilentLines d.name.toList (LogicalLine.ofText (includedText handle)) := by
    intro e he handle hanswer line hline _
    refine hincluded e.request handle ?_ line hline
    -- the exchange has its entry in the books
    rw [hrun]
    refine List.mem_flatMap.2 ⟨e, he, ?_⟩
    rw [Exchange.calls, hanswer]
    exact List.mem_cons_self
  have hstart : IncludeRun.AlikeBut d.name.toList (.start ⟨filename, text, ds₁ ++ ds₂⟩ handler)
      (.start ⟨filename, text, ds₁ ++ d :: ds₂⟩ handler) :=
    ⟨rfl, ⟨alikeBut_predefine fun e he _ => hvalues e he, rfl, rfl, rfl⟩, rfl⟩
  obtain ⟨hn', hlast⟩ :=
    alikeBut_runSource hn hstart (fun line hline _ => htext line hline) hopened
  rw [hrun, preprocess_recorded hn', Session.text, Session.text, hlast.output, hlast.diagnostics,
    hlast.handler]

/-- An include file that defines a macro in terms of another one. -/
def scaleFile : Include.Handle := ⟨"t", Utf8.encode "#define SCALE(x) x * A\n".toList⟩

/-- A handler with that file only. -/
def scaleHandler : Include.Handler Unit where
  acquire _ request :=
    (if request.name = "t" then .ok scaleFile else .error (.notFound request.name []), ())
  release _ _ := ()

/-- A source that includes it, and uses its macro where `B` is not defined. -/
def scalingText : String := "#include \"t\"\n#if !defined B\nSCALE(C)\n#endif\n"

theorem preprocess_of_unmentioned_scaling :
    Unmentioned "SCALED".toList scalingText.toList ∧
      Unmentioned "SCALED".toList (includedText scaleFile) ∧
      (engine 1).preprocess (recorded scaleHandler)
          ⟨"main", scalingText, [⟨"A", "2"⟩, ⟨"SCALED", "A C"⟩, ⟨"C", "(3)"⟩]⟩ ((), []) =
        (engine 1).preprocess (recorded scaleHandler)
          ⟨"main", scalingText, [⟨"A", "2"⟩, ⟨"C", "(3)"⟩]⟩ ((), []) := by
  have htext : Unmentioned "SCALED".toList scalingText.toList := by
    rw [Unmentioned]
    decide
  have hfile : Unmentioned "SCALED".toList (includedText scaleFile) := by
    rw [Unmentioned]
    decide
  refine ⟨htext, hfile, preprocess_of_unmentioned scaleHandler 1 "main" scalingText [⟨"A", "2"⟩]
    [⟨"C", "(3)"⟩] ⟨"SCALED", "A C"⟩ () htext (by decide) fun request handle hmem => ?_⟩
  obtain ⟨s, hanswer⟩ := exists_answer_of_acquired hmem
  simp only [scaleHandler] at hanswer
  split at hanswer
  · cases hanswer
    exact hfile
  · cases hanswer

end Preprocess
end ShaderKit
