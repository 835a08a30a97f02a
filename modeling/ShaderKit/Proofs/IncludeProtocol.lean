import ShaderKit.Proofs.IncludeFailure
import ShaderKit.Proofs.IncludeRecorder

/-!
# The include protocol

What a handler can rely on, however it answers, and what its failures come to.  `Kept` is what
every step of a run keeps: the pending files are a chain in which each was opened for a line of the
next, the chain is not too long, and the failures that were reported are those that were met.
`engine_keepsProtocol` collects what follows for the whole run of the engine.
-/

set_option autoImplicit false

namespace ShaderKit
namespace Preprocess

variable {σ : Type}

/-- The diagnostic that an exchange calls for, if the file could not be opened: in the file that
asked, at the line that did. -/
def Exchange.diagnostic? (e : Exchange) : Option Diagnostic :=
  match e.answer with
  | .error failure =>
    some (.ofPosition e.request.parent e.line
      s!"Include file '{e.request.name}' could not be opened: {failure.message}")
  | .ok _ => none

namespace IncludeRun

variable {h : Include.Handler σ} {maxDepth : Nat} {source : Source} {handler : σ}

/-! ## What every step keeps -/

/-- Pending files, innermost first: the last is the source, and every other one holds what is left
of a file that was opened, by an exchange among `es`, for the file after it. -/
inductive Chain (source : Source) (es : List Exchange) : List PendingFile → Prop
  | done : Chain source es []
  | main {f : PendingFile} (hname : f.name = source.filename)
      (hlines : f.lines <:+ LogicalLine.ofText source.text.toList) : Chain source es [f]
  | included {f parent : PendingFile} {outer : List PendingFile} {e : Exchange}
      {handle : Include.Handle} (he : e ∈ es) (hanswer : e.answer = .ok handle)
      (hname : e.request.name = f.name) (hparent : e.request.parent = some parent.name)
      (hlines : f.lines <:+ LogicalLine.ofText (includedText handle))
      (hchain : Chain source es (parent :: outer)) : Chain source es (f :: parent :: outer)

theorem Chain.mono {es es' : List Exchange} {files : List PendingFile}
    (hc : Chain source es files) (hsub : es ⊆ es') : Chain source es' files := by
  induction hc with
  | done => exact .done
  | main hname hlines => exact .main hname hlines
  | included he hanswer hname hparent hlines hchain ih =>
    exact .included (hsub he) hanswer hname hparent hlines ih

theorem Chain.tail {es : List Exchange} {f : PendingFile} {outer : List PendingFile}
    (hc : Chain source es (f :: outer)) : Chain source es outer := by
  cases hc with
  | main hname hlines => exact .done
  | included he hanswer hname hparent hlines hchain => exact hchain

theorem Chain.passed {es : List Exchange} {f : PendingFile} {outer : List PendingFile}
    {line : LogicalLine} {lines : List LogicalLine} (hc : Chain source es (f :: outer))
    (hf : f.lines = line :: lines) (groups : List Group) :
    Chain source es (f.passed line lines groups :: outer) := by
  have hsuffix : lines <:+ f.lines := by
    rw [hf]
    exact List.suffix_cons line lines
  cases hc with
  | main hname hlines => exact .main hname (hsuffix.trans hlines)
  | included he hanswer hname hparent hlines hchain =>
    exact .included he hanswer hname hparent (hsuffix.trans hlines) hchain

/-- What is true of a run at any time. -/
structure Kept (source : Source) (maxDepth : Nat) (r : IncludeRun σ) : Prop where
  chain : Chain source r.exchanges r.files
  depth : r.files.length ≤ maxDepth + 1
  failures : r.session.failures = r.exchanges.filterMap Exchange.diagnostic?

theorem kept_start (source : Source) (maxDepth : Nat) (handler : σ) :
    Kept source maxDepth (start source handler) where
  chain := .main rfl List.suffix_rfl
  depth := Nat.le_add_left 1 maxDepth
  failures := rfl

theorem asked?_eq_some_iff {f : PendingFile} {outer : List PendingFile} {line : LogicalLine}
    {macros : MacroTable} {target : Include.Kind × List Char} :
    asked? maxDepth f outer line macros = some target ↔
      outer.length < maxDepth ∧ (f.next line).target? macros f.groups = some target := by
  rw [asked?]
  split
  · next hlt => exact ⟨fun ht => ⟨hlt, ht⟩, And.right⟩
  · next hge =>
    constructor
    · intro ht
      cases ht
    · intro ht
      exact absurd ht.1 hge

theorem Kept.stepped {r r' : IncludeRun σ} (hr : Stepped h maxDepth r r')
    (hk : Kept source maxDepth r) : Kept source maxDepth r' := by
  obtain ⟨hchain, hdepth, hfailures⟩ := hk
  cases hr with
  | finished hf =>
    refine ⟨hchain.tail, Nat.le_of_succ_le hdepth, ?_⟩
    rw [failures_finish]
    exact hfailures
  | passed hf hasked =>
    refine ⟨hchain.passed hf _, hdepth, ?_⟩
    rw [failures_runLine]
    exact hfailures
  | failed hf hasked hanswer =>
    refine ⟨(hchain.passed hf _).mono (List.subset_append_left _ _), hdepth, ?_⟩
    rw [failures_report, List.filterMap_append, ← hfailures]
    rfl
  | opened hf hasked hanswer =>
    have hlt := (asked?_eq_some_iff.1 hasked).1
    refine ⟨?_, Nat.succ_le_succ hlt, ?_⟩
    · exact .included (List.mem_append_right _ (List.mem_singleton_self _)) rfl rfl rfl
        List.suffix_rfl ((hchain.passed hf _).mono (List.subset_append_left _ _))
    · rw [List.filterMap_append, ← hfailures]
      exact (List.append_nil _).symm

/-- The run may come to this. -/
def Reached (h : Include.Handler σ) (maxDepth : Nat) (source : Source) (handler : σ)
    (r : IncludeRun σ) : Prop :=
  ∃ n, (step h maxDepth)^[n] (start source handler) = r

theorem Reached.kept {r : IncludeRun σ} (hr : Reached h maxDepth source handler r) :
    Kept source maxDepth r := by
  obtain ⟨n, rfl⟩ := hr
  induction n with
  | zero => exact kept_start source maxDepth handler
  | succ n ih =>
    rw [Function.iterate_succ_apply']
    by_cases hfiles : ((step h maxDepth)^[n] (start source handler)).files = []
    · rw [step_of_files_eq_nil hfiles]
      exact ih
    · exact ih.stepped (stepped_step hfiles)

/-! ## Asking -/

/-- The exchange is the one that the next line of the innermost file asks for: the line is an
`#include` where lines are kept and names the file, the file of the line is the parent, and there
is room for one more. -/
def Asks (h : Include.Handler σ) (maxDepth : Nat) (r : IncludeRun σ) (e : Exchange) : Prop :=
  ∃ f outer line lines kind name, r.files = f :: outer ∧ f.lines = line :: lines ∧
    (f.next line).target? r.session.macros f.groups = some (kind, name) ∧
    outer.length < maxDepth ∧
    e.line = line.number ∧ e.request = ⟨kind, String.ofList name, some f.name⟩ ∧
    e.answer = (h.acquire r.session.handler e.request).1

/-- A step has an exchange exactly for a line that asks for one. -/
theorem exchanges_step (r : IncludeRun σ) :
    (step h maxDepth r).exchanges = r.exchanges ∨
      ∃ e, Asks h maxDepth r e ∧ (step h maxDepth r).exchanges = r.exchanges ++ [e] := by
  by_cases hfiles : r.files = []
  · rw [step_of_files_eq_nil hfiles]
    exact Or.inl rfl
  · generalize hstep : step h maxDepth r = r'
    have hr : Stepped h maxDepth r r' := hstep ▸ stepped_step hfiles
    cases hr with
    | finished hf => exact Or.inl rfl
    | passed hf hasked => exact Or.inl rfl
    | @failed f outer s es line lines kind name failure handler hf hasked hanswer =>
      obtain ⟨hlt, ht⟩ := asked?_eq_some_iff.1 hasked
      refine Or.inr ⟨_, ⟨f, outer, line, lines, kind, name, rfl, hf, ht, hlt, rfl, rfl, ?_⟩, rfl⟩
      rw [hanswer]
    | @opened f outer s es line lines kind name handle handler hf hasked hanswer =>
      obtain ⟨hlt, ht⟩ := asked?_eq_some_iff.1 hasked
      refine Or.inr ⟨_, ⟨f, outer, line, lines, kind, name, rfl, hf, ht, hlt, rfl, rfl, ?_⟩, rfl⟩
      rw [hanswer]

/-- An include that is one too many is reported, and the handler is not asked. -/
theorem step_of_tooDeep {r : IncludeRun σ} {f : PendingFile} {outer : List PendingFile}
    {line : LogicalLine} {lines : List LogicalLine} {target : Include.Kind × List Char}
    (hfiles : r.files = f :: outer) (hf : f.lines = line :: lines)
    (ht : (f.next line).target? r.session.macros f.groups = some target)
    (hdepth : maxDepth ≤ outer.length) :
    step h maxDepth r =
      ⟨f.passed line lines f.groups :: outer,
        r.session.report f.name line.number (some .includeTooDeep), r.exchanges⟩ := by
  obtain ⟨files, s, es⟩ := r
  cases hfiles
  have hasked : asked? maxDepth f outer line s.macros = none := if_neg (Nat.not_lt.2 hdepth)
  change (f.next line).target? ((f.passed line lines f.groups).state s).session.macros
    ((f.passed line lines f.groups).state s).groups = some target at ht
  have hline : runLine h none f.name (f.state s) line =
      (f.passed line lines f.groups).state
        (s.report f.name line.number (some .includeTooDeep)) := runStripped_none_of_target? ht
  rw [(Stepped.passed hf hasked).step_eq, hline]
  rfl

/-! ## Whole runs -/

/-- What can be said of a run of the engine, `last` being where it ends. -/
structure KeepsProtocol (h : Include.Handler σ) (maxDepth : Nat) (source : Source) (handler : σ)
    (last : IncludeRun σ) : Prop where
  /-- The run does end: no file is pending any more. -/
  ends : Reached h maxDepth source handler last ∧ last.files = []
  /-- What is left at the end is what the engine returns. -/
  outcome : (engine maxDepth).preprocess h source handler =
    (.ofParts last.session.diagnostics.toList (Utf8.encode last.session.text),
      last.session.handler)
  /-- The handler is called for the exchanges, one after the other, and for nothing else. -/
  calls : (engine maxDepth).preprocess (recorded h) source (handler, []) =
    (((engine maxDepth).preprocess h source handler).1,
      (last.session.handler, last.exchanges.flatMap Exchange.calls))
  /-- Never more than one file is open, -/
  oneOpen : ∀ calls, calls <+: last.exchanges.flatMap Exchange.calls →
    (openHandles [] calls).length ≤ 1
  /-- and at the end none is. -/
  noneOpen : openHandles [] (last.exchanges.flatMap Exchange.calls) = []
  /-- An exchange is what a line of the innermost file asks for. -/
  asks : ∀ r, Reached h maxDepth source handler r →
    (step h maxDepth r).exchanges = r.exchanges ∨
      ∃ e, Asks h maxDepth r e ∧ (step h maxDepth r).exchanges = r.exchanges ++ [e]
  /-- The pending files were each opened for a line of the next one, down to the source. -/
  chain : ∀ r, Reached h maxDepth source handler r → Chain source r.exchanges r.files
  /-- No more than `maxDepth` of them are inside the source, -/
  depth : ∀ r, Reached h maxDepth source handler r → r.files.length ≤ maxDepth + 1
  /-- for one that would be is reported where it stands, and not asked for. -/
  tooDeep : ∀ r f outer line lines target, Reached h maxDepth source handler r →
    r.files = f :: outer → f.lines = line :: lines →
    (f.next line).target? r.session.macros f.groups = some target → maxDepth ≤ outer.length →
    step h maxDepth r =
      ⟨f.passed line lines f.groups :: outer,
        r.session.report f.name line.number (some .includeTooDeep), r.exchanges⟩
  /-- The failures that were met are reported, one by one and in their order, -/
  failures : last.session.diagnostics.toList.filter aboutFailedInclude =
    last.exchanges.filterMap Exchange.diagnostic?
  /-- so there were none in a run that succeeds. -/
  success : ∀ output, ((engine maxDepth).preprocess h source handler).1 = .success output →
    ∀ e ∈ last.exchanges, ∃ handle, e.answer = .ok handle

theorem diagnostics_of_ofParts_eq_success {diagnostics : List Diagnostic}
    {bytes output : List UInt8} (hs : Outcome.ofParts diagnostics bytes = .success output) :
    diagnostics = [] := by
  rw [Outcome.ofParts] at hs
  split at hs
  · next hempty => exact List.isEmpty_iff.1 hempty
  · cases hs

theorem exists_handle_of_diagnostic? {es : List Exchange}
    (hes : es.filterMap Exchange.diagnostic? = []) (e : Exchange) (he : e ∈ es) :
    ∃ handle, e.answer = .ok handle := by
  have hnone := List.filterMap_eq_nil_iff.1 hes e he
  rw [Exchange.diagnostic?] at hnone
  cases hanswer : e.answer with
  | error failure =>
    rw [hanswer] at hnone
    cases hnone
  | ok handle => exact ⟨handle, rfl⟩

/-- **The engine keeps the include protocol with every handler.** -/
theorem engine_keepsProtocol (h : Include.Handler σ) (maxDepth : Nat) (source : Source)
    (handler : σ) : ∃ last, KeepsProtocol h maxDepth source handler last := by
  obtain ⟨n, es, hn⟩ := exists_iterate_step_start h maxDepth source handler
  have hbooks := runSource_recorded hn
  have hkept : Kept source maxDepth ⟨[], runSource h maxDepth source handler, es⟩ :=
    Reached.kept ⟨n, hn⟩
  refine ⟨⟨[], runSource h maxDepth source handler, es⟩, ?_⟩
  refine
    { ends := ⟨⟨n, hn⟩, rfl⟩
      outcome := rfl
      calls := ?_
      oneOpen := fun calls hcalls => length_openHandles_le hcalls
      noneOpen := openHandles_exchanges es
      asks := fun r _ => exchanges_step r
      chain := fun r hr => hr.kept.chain
      depth := fun r hr => hr.kept.depth
      tooDeep := fun r f outer line lines target _ hfiles hf ht hdepth =>
        step_of_tooDeep hfiles hf ht hdepth
      failures := hkept.failures
      success := ?_ }
  · rw [engine]
    dsimp only
    rw [hbooks]
    rfl
  · intro output houtput
    have hnone := diagnostics_of_ofParts_eq_success houtput
    apply exists_handle_of_diagnostic?
    rw [← hkept.failures]
    change (runSource h maxDepth source handler).diagnostics.toList.filter _ = []
    rw [hnone]
    rfl

end IncludeRun
end Preprocess
end ShaderKit
