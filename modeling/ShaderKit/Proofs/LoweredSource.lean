import ShaderKit.Proofs.RunReports

/-!
# A source that begins one line lower

Two runs whose sources have the same lines to come, but one line lower in the second, do the same,
step by step: they ask the handler for the same files and come to the same macros and the same
output (`IncludeRun.Lowered`).  They report the same, too, except that what the source itself
reports is one line lower (`Report.lowered`).  Files that the source includes are read from their
first line on in both runs, so what they report stays where it is — also if it is the source that is
included.

`lowered_step` says so of one step, and `lowered_iterate_step` of any number of steps.
-/

set_option autoImplicit false

namespace ShaderKit
namespace Preprocess

variable {σ : Type}

/-! ## Lines -/

/-- The line with a greater number. -/
def LogicalLine.lower (k : Nat) (line : LogicalLine) : LogicalLine := ⟨line.number + k, line.text⟩

theorem LogicalLine.splice_add (n k : Nat) (raws : List (List Char)) :
    splice (n + k) raws = (splice n raws).map (lower k) := by
  induction raws generalizing n with
  | nil => rfl
  | cons raw raws ih =>
    have hrest : splice (n + k + 1) raws = (splice (n + 1) raws).map (lower k) := by
      rw [← ih (n + 1), Nat.add_right_comm]
    rw [splice, splice, hrest]
    cases continued? raw with
    | none => rfl
    | some body => cases splice (n + 1) raws <;> rfl

/-! ## Reports -/

/-- The same report, one line lower if it is the source that reports, as far as positions go. -/
def Report.lowered (r : Report) : Report :=
  if r.depth = 0 then
    { r with
      diagnostic := { r.diagnostic with
        position := min (r.diagnostic.position + 1) Diagnostic.lastPosition } }
  else r

/-- How many lines lower a file is that has these files around it: the source is, and what it
includes is not. -/
def offset (outer : List PendingFile) : Nat := if outer.isEmpty then 1 else 0

theorem lowered_at (outer : List PendingFile) (fault : Fault) (file : String) (n : Nat) :
    (Report.mk outer.length (fault.at file n)).lowered =
      ⟨outer.length, fault.at file (n + offset outer)⟩ := by
  cases outer with
  | nil =>
    have hposition : min (min n Diagnostic.lastPosition + 1) Diagnostic.lastPosition =
        min (n + 1) Diagnostic.lastPosition := by omega
    simp [Report.lowered, Fault.at, Diagnostic.ofPosition, offset, hposition]
  | cons f outer => rfl

/-! ## Sessions -/

/-- The sessions differ in their diagnostics at most. -/
structure Session.Like (s s' : Session σ) : Prop where
  macros : s'.macros = s.macros
  output : s'.output = s.output
  handler : s'.handler = s.handler

theorem Session.Like.report {s s' : Session σ} (hs : s.Like s') (file file' : String)
    (line line' : Nat) (fault fault' : Option Fault) :
    (s.report file line fault).Like (s'.report file' line' fault') := by
  cases fault <;> cases fault' <;> exact ⟨hs.macros, hs.output, hs.handler⟩

theorem Session.Like.finish {st st' : FileState σ} (hs : st.session.Like st'.session)
    (file file' : String) (last last' : Nat) :
    (finish file last st).Like (finish file' last' st') :=
  (hs.report _ _ _ _ _ _).report _ _ _ _ _ _

/-! ## Pending files -/

/-- The same file, `k` lines lower.  The number of its last line matters as long as something can be
reported there. -/
structure PendingFile.Lowered (k : Nat) (f f' : PendingFile) : Prop where
  name : f'.name = f.name
  lines : f'.lines = f.lines.map (·.lower k)
  groups : f'.groups = f.groups
  inBlock : f'.inBlock = f.inBlock
  last : f'.last = f.last + k ∨ f.lines = [] ∧ endFaults f.groups f.inBlock = []

theorem PendingFile.Lowered.refl (f : PendingFile) : f.Lowered 0 f := by
  refine ⟨rfl, ?_, rfl, rfl, .inl rfl⟩
  exact (List.map_id f.lines).symm

/-- The same files, but the source one line lower. -/
inductive FilesLowered : List PendingFile → List PendingFile → Prop
  | nil : FilesLowered [] []
  | cons {f f' : PendingFile} {outer outer' : List PendingFile} (hf : f.Lowered (offset outer) f')
      (houter : FilesLowered outer outer') : FilesLowered (f :: outer) (f' :: outer')

theorem FilesLowered.length_eq {files files' : List PendingFile} (h : FilesLowered files files') :
    files'.length = files.length := by
  induction h with
  | nil => rfl
  | cons hf houter ih => rw [List.length_cons, List.length_cons, ih]

namespace IncludeRun

/-- The runs stand at the same place, but the source of the second is one line lower. -/
structure Lowered (r r' : IncludeRun σ) : Prop where
  files : FilesLowered r.files r'.files
  session : r.session.Like r'.session
  calls : r'.calls = r.calls

variable {h : Include.Handler σ} {maxDepth : Nat} {r r' : IncludeRun σ}

/-- After a step the runs still stand at the same place, and the step has reported the same, one
line lower where it is the source that reports. -/
structure StepsLowered (h : Include.Handler σ) (maxDepth : Nat) (r r' : IncludeRun σ) : Prop where
  lowered : Lowered (step h maxDepth r) (step h maxDepth r')
  raised_eq : raised h maxDepth r' = (raised h maxDepth r).map Report.lowered

/-- The steps of both runs, if it is known where they lead and which faults of the innermost file
they add. -/
theorem stepsLowered_of_stepped (outer : List PendingFile) (faults : List Fault) (file : String)
    (n : Nat) {next next' : IncludeRun σ} (hr : Stepped h maxDepth r next)
    (hr' : Stepped h maxDepth r' next') (hfiles : r.files.length = outer.length + 1)
    (hfiles' : r'.files.length = outer.length + 1) (hnext : Lowered next next')
    (hmore : next.session.diagnostics.toList =
      r.session.diagnostics.toList ++ faults.map (·.at file n))
    (hmore' : next'.session.diagnostics.toList =
      r'.session.diagnostics.toList ++ faults.map (·.at file (n + offset outer))) :
    StepsLowered h maxDepth r r' := by
  obtain rfl := hr.step_eq
  obtain rfl := hr'.step_eq
  refine ⟨hnext, ?_⟩
  rw [raised_eq hmore, raised_eq hmore', hfiles, hfiles', List.map_map, List.map_map, List.map_map]
  refine List.map_congr_left fun fault _ => ?_
  exact (lowered_at outer fault file n).symm

section

variable {f f' : PendingFile} {outer outer' : List PendingFile} {s s' : Session σ}
  {es es' : List Exchange} (hf : f.Lowered (offset outer) f') (houter : FilesLowered outer outer')
  (hs : s.Like s') (hcalls : es'.flatMap Exchange.calls = es.flatMap Exchange.calls)

include hf houter hs hcalls

theorem lowered_finished (hlines : f.lines = []) :
    StepsLowered h maxDepth ⟨f :: outer, s, es⟩ ⟨f' :: outer', s', es'⟩ := by
  have hlines' : f'.lines = [] := by rw [hf.lines, hlines, List.map_nil]
  refine stepsLowered_of_stepped outer (endFaults f.groups f.inBlock) f.name f.last
    (.finished hlines) (.finished hlines') rfl (congrArg Nat.succ houter.length_eq) ?_ ?_ ?_
  · exact ⟨houter, Session.Like.finish hs _ _ _ _, hcalls⟩
  · rw [diagnostics_finish]
    rfl
  · rw [diagnostics_finish]
    change _ ++ (endFaults f'.groups f'.inBlock).map (·.at f'.name f'.last) = _
    rw [hf.groups, hf.inBlock, hf.name]
    rcases hf.last with hlast | ⟨-, hnothing⟩
    · rw [hlast]
      rfl
    · rw [hnothing]
      rfl

variable {line : LogicalLine} {lines : List LogicalLine}

omit houter hcalls in
/-- A line that includes nothing does the same in both, and its fault is reported where it is. -/
theorem exists_runLine_lowered (h : Include.Handler σ) (line : LogicalLine) :
    ∃ (groups : List Group) (t t' : Session σ) (fault : Option Fault), t.Like t' ∧
      t.diagnostics = s.diagnostics ∧ t'.diagnostics = s'.diagnostics ∧
      runLine h none f.name (f.state s) line =
        ⟨groups, (stripComments f.inBlock line.text).2, t.report f.name line.number fault⟩ ∧
      runLine h none f'.name (f'.state s') (line.lower (offset outer)) =
        ⟨groups, (stripComments f.inBlock line.text).2,
          t'.report f.name (line.number + offset outer) fault⟩ := by
  obtain ⟨_, _, diagnostics', _⟩ := s'
  obtain ⟨rfl, rfl, rfl⟩ := hs
  obtain ⟨_, _, _, _, _⟩ := f'
  obtain ⟨rfl, -, rfl, rfl, -⟩ := hf
  obtain ⟨groups, macros, output, fault, hrun⟩ :=
    exists_runLine_eq line.text f.groups f.inBlock s.macros s.output
  exact ⟨groups, ⟨macros, output, s.diagnostics, s.handler⟩,
    ⟨macros, output, diagnostics', s.handler⟩, fault, ⟨rfl, rfl, rfl⟩, rfl, rfl,
    hrun h f.name line.number s.diagnostics s.handler,
    hrun h f.name (line.number + offset outer) diagnostics' s.handler⟩

omit houter hs hcalls in
theorem lowered_lines (hlines : f.lines = line :: lines) :
    f'.lines = line.lower (offset outer) :: lines.map (·.lower (offset outer)) := by
  rw [hf.lines, hlines, List.map_cons]

omit houter hs hcalls in
/-- Behind a line, the files still have the same lines to come. -/
theorem lowered_passed (hlines : f.lines = line :: lines) (groups : List Group) :
    (f.passed line lines groups).Lowered (offset outer)
      (f'.passed (line.lower (offset outer)) (lines.map (·.lower (offset outer))) groups) := by
  refine ⟨hf.name, rfl, rfl, ?_, .inl ?_⟩
  · exact congrArg (fun inBlock => (stripComments inBlock line.text).2) hf.inBlock
  · rcases hf.last with hlast | ⟨hnil, -⟩
    · exact hlast
    · rw [hlines] at hnil
      cases hnil

omit hcalls in
theorem asked?_lowered : asked? maxDepth f' outer' (line.lower (offset outer)) s'.macros =
    asked? maxDepth f outer line s.macros := by
  rw [asked?, asked?, houter.length_eq, hs.macros, PendingFile.next, PendingFile.next, hf.groups,
    hf.inBlock]
  rfl

theorem lowered_of_asked?_eq_none (hlines : f.lines = line :: lines)
    (hasked : asked? maxDepth f outer line s.macros = none) :
    StepsLowered h maxDepth ⟨f :: outer, s, es⟩ ⟨f' :: outer', s', es'⟩ := by
  have hasked' := (asked?_lowered hf houter hs).trans hasked
  obtain ⟨groups, t, t', fault, hlike, ht, ht', hline, hline'⟩ :=
    exists_runLine_lowered hf hs h line
  have hstep : Stepped h maxDepth ⟨f :: outer, s, es⟩ _ := .passed hlines hasked
  have hstep' : Stepped h maxDepth ⟨f' :: outer', s', es'⟩ _ :=
    .passed (lowered_lines hf hlines) hasked'
  rw [hline] at hstep
  rw [hline'] at hstep'
  refine stepsLowered_of_stepped outer fault.toList f.name line.number hstep hstep' rfl
    (congrArg Nat.succ houter.length_eq) ?_ ?_ ?_
  · exact ⟨.cons (lowered_passed hf hlines groups) houter, hlike.report _ _ _ _ _ _, hcalls⟩
  · rw [diagnostics_report, ht]
  · rw [diagnostics_report, ht']

theorem lowered_of_failed (hlines : f.lines = line :: lines) {kind : Include.Kind}
    {name : List Char} (hasked : asked? maxDepth f outer line s.macros = some (kind, name))
    {failure : Include.Failure} {handler : σ}
    (hanswer : h.acquire s.handler ⟨kind, String.ofList name, some f.name⟩ =
      (.error failure, handler)) :
    StepsLowered h maxDepth ⟨f :: outer, s, es⟩ ⟨f' :: outer', s', es'⟩ := by
  have hasked' := (asked?_lowered hf houter hs).trans hasked
  have hanswer' : h.acquire s'.handler ⟨kind, String.ofList name, some f'.name⟩ =
      (.error failure, handler) := by rw [hs.handler, hf.name, hanswer]
  have hstep' : Stepped h maxDepth ⟨f' :: outer', s', es'⟩ _ :=
    .failed (lowered_lines hf hlines) hasked' hanswer'
  rw [hf.name] at hstep'
  refine stepsLowered_of_stepped outer [.includeFailed name failure] f.name line.number
    (.failed hlines hasked hanswer) hstep' rfl (congrArg Nat.succ houter.length_eq) ?_ ?_ ?_
  · have hlike : Session.Like { s with handler } { s' with handler } := ⟨hs.macros, hs.output, rfl⟩
    have hreport := hlike.report f.name f.name line.number (line.number + offset outer)
      (some (.includeFailed name failure)) (some (.includeFailed name failure))
    rw [hf.groups]
    refine ⟨.cons (lowered_passed hf hlines f.groups) houter, hreport, ?_⟩
    rw [calls, calls, calls_append, calls_append, hcalls]
    rfl
  · rw [diagnostics_report]
    rfl
  · rw [diagnostics_report]
    rfl

theorem lowered_of_opened (hlines : f.lines = line :: lines) {kind : Include.Kind}
    {name : List Char} (hasked : asked? maxDepth f outer line s.macros = some (kind, name))
    {handle : Include.Handle} {handler : σ}
    (hanswer : h.acquire s.handler ⟨kind, String.ofList name, some f.name⟩ =
      (.ok handle, handler)) :
    StepsLowered h maxDepth ⟨f :: outer, s, es⟩ ⟨f' :: outer', s', es'⟩ := by
  have hasked' := (asked?_lowered hf houter hs).trans hasked
  have hanswer' : h.acquire s'.handler ⟨kind, String.ofList name, some f'.name⟩ =
      (.ok handle, handler) := by rw [hs.handler, hf.name, hanswer]
  have hstep' : Stepped h maxDepth ⟨f' :: outer', s', es'⟩ _ :=
    .opened (lowered_lines hf hlines) hasked' hanswer'
  rw [hf.name] at hstep'
  refine stepsLowered_of_stepped outer [] f.name line.number (.opened hlines hasked hanswer) hstep'
    rfl (congrArg Nat.succ houter.length_eq) ?_ (List.append_nil _).symm (List.append_nil _).symm
  -- the file that is opened is not the source, and begins at its first line in both
  rw [hf.groups]
  refine ⟨.cons (.refl _) (.cons (lowered_passed hf hlines f.groups) houter),
    ⟨hs.macros, hs.output, rfl⟩, ?_⟩
  rw [calls, calls, calls_append, calls_append, hcalls]
  rfl

end

/-- **Both runs take the same step.** -/
theorem lowered_step (hr : Lowered r r') : StepsLowered h maxDepth r r' := by
  obtain ⟨files, s, es⟩ := r
  obtain ⟨files', s', es'⟩ := r'
  obtain ⟨hfiles, hs, hcalls⟩ := hr
  cases hfiles with
  | nil =>
    constructor
    · rw [step_of_files_eq_nil rfl, step_of_files_eq_nil rfl]
      exact ⟨.nil, hs, hcalls⟩
    · rw [raised_of_files_eq_nil rfl, raised_of_files_eq_nil rfl]
      rfl
  | @cons f f' outer outer' hf houter =>
    cases hlines : f.lines with
    | nil => exact lowered_finished hf houter hs hcalls hlines
    | cons line lines =>
      cases hasked : asked? maxDepth f outer line s.macros with
      | none => exact lowered_of_asked?_eq_none hf houter hs hcalls hlines hasked
      | some target =>
        obtain ⟨kind, name⟩ := target
        rcases hanswer : h.acquire s.handler ⟨kind, String.ofList name, some f.name⟩ with
          ⟨failure | handle, handler⟩
        · exact lowered_of_failed hf houter hs hcalls hlines hasked hanswer
        · exact lowered_of_opened hf houter hs hcalls hlines hasked hanswer

theorem lowered_iterate_step (h : Include.Handler σ) (maxDepth n : Nat) (hr : Lowered r r') :
    Lowered ((step h maxDepth)^[n] r) ((step h maxDepth)^[n] r') ∧
      reports h maxDepth n r' = (reports h maxDepth n r).map Report.lowered := by
  induction n generalizing r r' with
  | zero => exact ⟨hr, rfl⟩
  | succ n ih =>
    obtain ⟨hstep, hraised⟩ : StepsLowered h maxDepth r r' := lowered_step hr
    obtain ⟨hrest, hreports⟩ := ih hstep
    refine ⟨hrest, ?_⟩
    rw [reports, reports, List.map_append, hraised, hreports]

end IncludeRun

/-! ## Whole runs -/

/-- The second source is preprocessed as the first one is, but what it reports itself is one line
lower. -/
structure PreprocessedLower (h : Include.Handler σ) (maxDepth : Nat) (source lower : Source)
    (handler : σ) : Prop where
  /-- Both have the same output, if either has one. -/
  success : ∀ output, ((engine maxDepth).preprocess h lower handler).1 = .success output ↔
    ((engine maxDepth).preprocess h source handler).1 = .success output
  /-- The handler gets the same calls, in the same order. -/
  calls : (runSource (recorded h) maxDepth lower (handler, [])).handler =
    (runSource (recorded h) maxDepth source (handler, [])).handler
  /-- The reports are the same, in the same order, and those of the source are one line lower. -/
  reports : ∃ rs, Raises h maxDepth source handler rs ∧
    Raises h maxDepth lower handler (rs.map Report.lowered) ∧
    ((engine maxDepth).preprocess h source handler).1.diagnostics = rs.map (·.diagnostic) ∧
    ((engine maxDepth).preprocess h lower handler).1.diagnostics =
      rs.map fun report => report.lowered.diagnostic

section

variable {h : Include.Handler σ} {maxDepth : Nat} {source lower : Source} {handler : σ}
  (hfirst : IncludeRun.Lowered (.start source handler)
    (IncludeRun.step h maxDepth (.start lower handler)))

include hfirst

/-- The runs end together, one step later in the source that has one line more. -/
theorem exists_ends_lowered : ∃ n es es',
    (IncludeRun.step h maxDepth)^[n] (.start source handler) =
        ⟨[], runSource h maxDepth source handler, es⟩ ∧
      (IncludeRun.step h maxDepth)^[n + 1] (.start lower handler) =
        ⟨[], runSource h maxDepth lower handler, es'⟩ ∧
      IncludeRun.Lowered ⟨[], runSource h maxDepth source handler, es⟩
        ⟨[], runSource h maxDepth lower handler, es'⟩ := by
  obtain ⟨n, es, hn⟩ := IncludeRun.exists_iterate_step_start h maxDepth source handler
  obtain ⟨m, es', hm⟩ := IncludeRun.exists_iterate_step_start h maxDepth lower handler
  have hlowered := (IncludeRun.lowered_iterate_step h maxDepth n hfirst).1
  rw [← Function.iterate_succ_apply, hn] at hlowered
  have hend : ((IncludeRun.step h maxDepth)^[n + 1] (.start lower handler)).files = [] :=
    List.eq_nil_of_length_eq_zero hlowered.files.length_eq
  have hlast := IncludeRun.iterate_step_unique rfl hend hm rfl
  rw [hlast] at hlowered
  exact ⟨n, es, es', hn, hlast, hlowered⟩

/-- **One line lower from the first step on.**  If a source stands after its first line where
another one stands at its beginning, and that line has reported nothing, then it is preprocessed as
the other one is. -/
theorem preprocessedLower_of_lowered
    (hquiet : IncludeRun.raised h maxDepth (.start lower handler) = []) :
    PreprocessedLower h maxDepth source lower handler := by
  obtain ⟨n, es, es', hn, hn', hlowered⟩ := exists_ends_lowered hfirst
  have hraises : Raises h maxDepth source handler
      (IncludeRun.reports h maxDepth n (.start source handler)) := ⟨n, by rw [hn], rfl⟩
  have hraises' : Raises h maxDepth lower handler
      ((IncludeRun.reports h maxDepth n (.start source handler)).map Report.lowered) := by
    refine ⟨n + 1, by rw [hn'], ?_⟩
    rw [IncludeRun.reports, hquiet, List.nil_append]
    exact (IncludeRun.lowered_iterate_step h maxDepth n hfirst).2
  have hdiagnostics := hraises.diagnostics_eq
  have hdiagnostics' := hraises'.diagnostics_eq
  constructor
  · intro output
    have htext : (runSource h maxDepth lower handler).text =
        (runSource h maxDepth source handler).text :=
      congrArg (·.toList.flatMap (· ++ ['\n'])) hlowered.session.output
    rw [engine, ofParts_eq_success_iff, ofParts_eq_success_iff, hdiagnostics, hdiagnostics', htext]
    simp
  · rw [IncludeRun.runSource_recorded hn, IncludeRun.runSource_recorded hn']
    exact Prod.ext hlowered.session.handler hlowered.calls
  · refine ⟨_, hraises, hraises', ?_, ?_⟩
    · rw [engine, diagnostics_ofParts, hdiagnostics]
    · rw [engine, diagnostics_ofParts, hdiagnostics', List.map_map]
      rfl

end

end Preprocess
end ShaderKit
