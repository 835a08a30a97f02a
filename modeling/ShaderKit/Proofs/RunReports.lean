import ShaderKit.Proofs.IncludeRecorder
import ShaderKit.Proofs.RunAgreement

/-!
# Who reports what

The diagnostics of a run do not say which file has reported them.  The name in them is no help: a
file that includes itself reports under one name at two depths.  But a run that goes step by step
knows, since a step belongs to the innermost pending file.  `IncludeRun.reports` collects what the
steps of a run report, each diagnostic with the number of files around the one that reports it, and
`Raises` says so of a whole run.  Without the depths these are the diagnostics of the run
(`Raises.diagnostics_eq`), and there is one such list only (`Raises.unique`).
-/

set_option autoImplicit false

namespace ShaderKit
namespace Preprocess

variable {σ : Type}

/-! ## What is reported at once -/

/-- A fault at a line of a file. -/
def Fault.at (fault : Fault) (file : String) (line : Nat) : Diagnostic :=
  .ofPosition (some file) line fault.message

/-- The faults at the end of a file. -/
def endFaults (groups : List Group) (inBlock : Bool) : List Fault :=
  (if inBlock then [.unterminatedComment] else []) ++
    if groups.isEmpty then [] else [.unterminatedIf]

theorem diagnostics_report (s : Session σ) (file : String) (line : Nat) (fault : Option Fault) :
    (s.report file line fault).diagnostics.toList =
      s.diagnostics.toList ++ fault.toList.map (·.at file line) := by
  cases fault with
  | none => exact (List.append_nil _).symm
  | some fault => exact Array.toList_push

theorem diagnostics_finish (file : String) (last : Nat) (st : FileState σ) :
    (finish file last st).diagnostics.toList =
      st.session.diagnostics.toList ++ (endFaults st.groups st.inBlock).map (·.at file last) := by
  rw [finish, diagnostics_report, diagnostics_report, List.append_assoc, endFaults, List.map_append]
  cases st.inBlock <;> cases st.groups <;> rfl

/-! ## What steps report -/

/-- A diagnostic, and how many files are around the one that reports it: none around the source. -/
structure Report where
  depth : Nat
  diagnostic : Diagnostic
  deriving DecidableEq, Repr

namespace IncludeRun

variable {h : Include.Handler σ} {maxDepth : Nat}

/-- What is reported in one step, by the innermost file. -/
def raised (h : Include.Handler σ) (maxDepth : Nat) (r : IncludeRun σ) : List Report :=
  ((step h maxDepth r).session.diagnostics.toList.drop r.session.diagnostics.size).map
    (Report.mk (r.files.length - 1))

/-- What is reported in so many steps. -/
def reports (h : Include.Handler σ) (maxDepth : Nat) : Nat → IncludeRun σ → List Report
  | 0, _ => []
  | n + 1, r => raised h maxDepth r ++ reports h maxDepth n (step h maxDepth r)

theorem extends_step (r : IncludeRun σ) : r.session.Extends (step h maxDepth r).session := by
  by_cases hr : r.files = []
  · rw [step_of_files_eq_nil hr]
    exact extends_of_eq rfl
  · have hstepped : Stepped h maxDepth r (step h maxDepth r) := stepped_step hr
    generalize step h maxDepth r = next at hstepped ⊢
    cases hstepped with
    | @finished f _ s _ _ => exact extends_finish f.name f.last (f.state s) f.inBlock
    | @passed f _ s _ line _ _ _ =>
      rw [runLine_eq]
      exact extends_runStripped_none h f.name line.number _ (f.state s)
    | @failed f _ s _ line _ _ name failure handler _ _ _ =>
      exact extends_report { s with handler } f.name line.number
        (some (.includeFailed name failure))
    | opened => exact extends_of_eq rfl

theorem diagnostics_step (r : IncludeRun σ) :
    (step h maxDepth r).session.diagnostics.toList =
      r.session.diagnostics.toList ++ (raised h maxDepth r).map (·.diagnostic) := by
  obtain ⟨more, hmore⟩ : r.session.Extends (step h maxDepth r).session := extends_step r
  rw [raised, ← hmore, List.map_map, ← Array.length_toList, List.drop_left]
  exact congrArg _ (List.map_id more).symm

variable (h maxDepth) in
theorem diagnostics_iterate_step (n : Nat) (r : IncludeRun σ) :
    ((step h maxDepth)^[n] r).session.diagnostics.toList =
      r.session.diagnostics.toList ++ (reports h maxDepth n r).map (·.diagnostic) := by
  induction n generalizing r with
  | zero => exact (List.append_nil _).symm
  | succ n ih =>
    rw [Function.iterate_succ_apply, ih, diagnostics_step, reports, List.map_append,
      List.append_assoc]

/-- The reports of a step, if it is known which diagnostics it adds. -/
theorem raised_eq {r : IncludeRun σ} {more : List Diagnostic}
    (hmore : (step h maxDepth r).session.diagnostics.toList =
      r.session.diagnostics.toList ++ more) :
    raised h maxDepth r = more.map (Report.mk (r.files.length - 1)) := by
  rw [raised, hmore, ← Array.length_toList, List.drop_left]

theorem raised_of_files_eq_nil {r : IncludeRun σ} (hr : r.files = []) :
    raised h maxDepth r = [] := by
  have hnothing : (step h maxDepth r).session.diagnostics.toList =
      r.session.diagnostics.toList ++ [] := by
    rw [step_of_files_eq_nil hr, List.append_nil]
  exact raised_eq hnothing

/-- Nothing is reported once all files are finished. -/
theorem reports_of_files_eq_nil {r : IncludeRun σ} (hr : r.files = []) (k : Nat) :
    reports h maxDepth k r = [] := by
  induction k with
  | zero => rfl
  | succ k ih =>
    rw [reports, raised_of_files_eq_nil hr, step_of_files_eq_nil hr, ih, List.nil_append]

theorem reports_add_of_files_eq_nil {n : Nat} {r : IncludeRun σ}
    (hr : ((step h maxDepth)^[n] r).files = []) (k : Nat) :
    reports h maxDepth (n + k) r = reports h maxDepth n r := by
  induction n generalizing r with
  | zero =>
    rw [Nat.zero_add]
    exact reports_of_files_eq_nil hr k
  | succ n ih => rw [Nat.succ_add, reports, ih hr, reports]

end IncludeRun

/-- What a run reports: the reports of all its steps, until no file is pending. -/
def Raises (h : Include.Handler σ) (maxDepth : Nat) (source : Source) (handler : σ)
    (reports : List Report) : Prop :=
  ∃ n, ((IncludeRun.step h maxDepth)^[n] (.start source handler)).files = [] ∧
    IncludeRun.reports h maxDepth n (.start source handler) = reports

theorem Raises.unique {h : Include.Handler σ} {maxDepth : Nat} {source : Source} {handler : σ}
    {rs rs' : List Report} (hrs : Raises h maxDepth source handler rs)
    (hrs' : Raises h maxDepth source handler rs') : rs = rs' := by
  obtain ⟨n, hn, rfl⟩ := hrs
  obtain ⟨m, hm, rfl⟩ := hrs'
  rcases Nat.le_total n m with hle | hle
  · obtain ⟨k, rfl⟩ := Nat.exists_eq_add_of_le hle
    exact (IncludeRun.reports_add_of_files_eq_nil hn k).symm
  · obtain ⟨k, rfl⟩ := Nat.exists_eq_add_of_le hle
    exact IncludeRun.reports_add_of_files_eq_nil hm k

/-- Without the depths, the reports of a run are its diagnostics. -/
theorem Raises.diagnostics_eq {h : Include.Handler σ} {maxDepth : Nat} {source : Source}
    {handler : σ} {rs : List Report} (hrs : Raises h maxDepth source handler rs) :
    (runSource h maxDepth source handler).diagnostics.toList = rs.map (·.diagnostic) := by
  obtain ⟨n, hn, rfl⟩ := hrs
  obtain ⟨m, es, hm⟩ := IncludeRun.exists_iterate_step_start h maxDepth source handler
  have hlast := IncludeRun.iterate_step_unique rfl hn hm rfl
  have hreports := IncludeRun.diagnostics_iterate_step h maxDepth n (.start source handler)
  rw [hlast] at hreports
  exact hreports

end Preprocess
end ShaderKit
