import ShaderKit.Proofs.IncludeStack

/-!
# Listening to the handler

What a preprocessor asks of its handler can be heard by the handler only.  `recorded` is a handler
that passes every call on to another one and writes it down; a run with it is the run with the
other one, and the calls in its books are those that the exchanges of the run stand for
(`runSource_recorded`).

An exchange is a call that fails, or one that opens a file and one that closes that very file, so
never more than one file is open (`length_openHandles_le`).
-/

set_option autoImplicit false

namespace ShaderKit
namespace Preprocess

variable {σ τ : Type}

/-! ## A handler that keeps books -/

/-- A call of a handler, with the answer. -/
inductive HandlerCall where
  | acquired (request : Include.Request) (answer : Except Include.Failure Include.Handle)
  | released (handle : Include.Handle)

/-- The handler that writes down every call, and leaves the answers to `h`. -/
def recorded (h : Include.Handler σ) : Include.Handler (σ × List HandlerCall) where
  acquire s request :=
    ((h.acquire s.1 request).1,
      ((h.acquire s.1 request).2, s.2 ++ [.acquired request (h.acquire s.1 request).1]))
  release s handle := (h.release s.1 handle, s.2 ++ [.released handle])

/-- The calls that an exchange consists of: a file that was opened is closed at once. -/
def Exchange.calls (e : Exchange) : List HandlerCall :=
  match e.answer with
  | .error _ => [.acquired e.request e.answer]
  | .ok handle => [.acquired e.request e.answer, .released handle]

/-! ## Changing the handler

A line that may not include anything leaves the handler alone, whatever its state is made of. -/

/-- The session with another handler state. -/
def Session.withHandler (s : Session σ) (handler : τ) : Session τ :=
  ⟨s.macros, s.output, s.diagnostics, handler⟩

/-- The state with another handler state. -/
def FileState.withHandler (st : FileState σ) (handler : τ) : FileState τ :=
  ⟨st.groups, st.inBlock, st.session.withHandler handler⟩

theorem report_withHandler (s : Session σ) (handler : τ) (file : String) (line : Nat)
    (fault : Option Fault) :
    (s.withHandler handler).report file line fault =
      (s.report file line fault).withHandler handler := by
  cases fault with
  | none => rfl
  | some fault => rfl

theorem runStripped_withHandler (h : Include.Handler σ) (h' : Include.Handler τ) (file : String)
    (number : Nat) (line : Line) (st : FileState σ) (handler : τ) :
    runStripped h' none file number line (st.withHandler handler) =
      (runStripped h none file number line st).withHandler handler := by
  obtain ⟨groups, inBlock, s⟩ := st
  obtain ⟨_, macros, output, fault, hrun⟩ :=
    exists_runStripped_eq line groups s.macros s.output
  have hwithout := hrun h file number inBlock s.diagnostics s.handler
  have hreport := report_withHandler ⟨macros, output, s.diagnostics, s.handler⟩ handler file number
    fault
  refine (hrun h' file number inBlock s.diagnostics handler).trans ?_
  exact (congrArg (FileState.mk _ _) hreport).trans (congrArg (·.withHandler handler) hwithout.symm)

theorem runLine_withHandler (h : Include.Handler σ) (h' : Include.Handler τ) (file : String)
    (line : LogicalLine) (st : FileState σ) (handler : τ) :
    runLine h' none file (st.withHandler handler) line =
      (runLine h none file st line).withHandler handler := by
  rw [runLine_eq, runLine_eq, runStripped_withHandler h]
  rfl

theorem runLine_handler (h : Include.Handler σ) (file : String) (line : LogicalLine)
    (st : FileState σ) : (runLine h none file st line).session.handler = st.session.handler := by
  have hsame := runLine_withHandler h h file line st st.session.handler
  exact congrArg (fun st => st.session.handler) hsame

theorem report_handler (s : Session σ) (file : String) (line : Nat) (fault : Option Fault) :
    (s.report file line fault).handler = s.handler := by
  cases fault with
  | none => rfl
  | some fault => rfl

theorem finish_handler (file : String) (last : Nat) (st : FileState σ) :
    (finish file last st).handler = st.session.handler := by
  rw [finish, report_handler, report_handler]

theorem finish_withHandler (file : String) (last : Nat) (st : FileState σ) (handler : τ) :
    finish file last (st.withHandler handler) = (finish file last st).withHandler handler := by
  rw [finish, finish, ← report_withHandler, ← report_withHandler]
  rfl

namespace IncludeRun

/-! ## Runs with a recorder -/

/-- The calls of the exchanges of a run. -/
def calls (r : IncludeRun σ) : List HandlerCall := r.exchanges.flatMap Exchange.calls

/-- The run with a handler that keeps books, which hold the calls so far. -/
def withBooks (r : IncludeRun σ) : IncludeRun (σ × List HandlerCall) where
  files := r.files
  session := r.session.withHandler (r.session.handler, r.calls)
  exchanges := r.exchanges

variable {h : Include.Handler σ} {maxDepth : Nat}

theorem step_of_files_eq_nil {r : IncludeRun σ} (hr : r.files = []) : step h maxDepth r = r := by
  rw [step, hr]

theorem calls_append (es : List Exchange) (e : Exchange) :
    (es ++ [e]).flatMap Exchange.calls = es.flatMap Exchange.calls ++ e.calls := by
  rw [List.flatMap_append, List.flatMap_singleton]

theorem recorded_acquire {s s' : σ} {request : Include.Request}
    {answer : Except Include.Failure Include.Handle} (ha : h.acquire s request = (answer, s'))
    (books : List HandlerCall) :
    (recorded h).acquire (s, books) request =
      (answer, (s', books ++ [.acquired request answer])) := by
  change ((h.acquire s request).1, (h.acquire s request).2, _) = _
  rw [ha]

/-- A step with books is the step without them, and the books are kept. -/
theorem Stepped.withBooks {r r' : IncludeRun σ} (hr : Stepped h maxDepth r r') :
    Stepped (recorded h) maxDepth r.withBooks r'.withBooks := by
  cases hr with
  | @finished f outer s es hf =>
    change Stepped _ _ ⟨f :: outer, _, es⟩
      ⟨outer, (finish f.name f.last (f.state s)).withHandler (_, es.flatMap Exchange.calls), es⟩
    rw [finish_handler, ← finish_withHandler]
    exact .finished hf
  | @passed f outer s es line lines hf hasked =>
    have hstep : Stepped (recorded h) maxDepth
        ⟨f :: outer, s.withHandler (s.handler, es.flatMap Exchange.calls), es⟩ _ :=
      .passed hf hasked
    have hline := runLine_withHandler h (recorded h) f.name line (f.state s)
      (s.handler, es.flatMap Exchange.calls)
    change runLine (recorded h) none f.name (f.state (s.withHandler _)) line = _ at hline
    rw [hline] at hstep
    change Stepped _ _ ⟨f :: outer, _, es⟩
      ⟨_, (runLine h none f.name (f.state s) line).session.withHandler
        (_, es.flatMap Exchange.calls), es⟩
    rw [runLine_handler]
    exact hstep
  | @failed f outer s es line lines kind name failure handler hf hasked hanswer =>
    have hstep : Stepped (recorded h) maxDepth
        ⟨f :: outer, s.withHandler (s.handler, es.flatMap Exchange.calls), es⟩ _ :=
      .failed hf hasked (recorded_acquire hanswer _)
    rw [IncludeRun.withBooks, IncludeRun.withBooks, calls, calls, calls_append]
    exact hstep
  | @opened f outer s es line lines kind name handle handler hf hasked hanswer =>
    have hstep : Stepped (recorded h) maxDepth
        ⟨f :: outer, s.withHandler (s.handler, es.flatMap Exchange.calls), es⟩ _ :=
      .opened hf hasked (recorded_acquire hanswer _)
    rw [IncludeRun.withBooks, IncludeRun.withBooks, calls, calls, calls_append]
    change Stepped _ _ _ ⟨_, s.withHandler (h.release handler handle,
      es.flatMap Exchange.calls ++ ([_] ++ [_])), _⟩
    rw [← List.append_assoc]
    exact hstep

theorem step_withBooks (r : IncludeRun σ) :
    step (recorded h) maxDepth r.withBooks = (step h maxDepth r).withBooks := by
  by_cases hr : r.files = []
  · rw [step_of_files_eq_nil hr]
    exact step_of_files_eq_nil hr
  · exact (stepped_step hr).withBooks.step_eq

theorem iterate_step_withBooks (n : Nat) (r : IncludeRun σ) :
    (step (recorded h) maxDepth)^[n] r.withBooks = ((step h maxDepth)^[n] r).withBooks :=
  (Function.Semiconj.iterate_right (fun r => (step_withBooks r).symm) n r).symm

/-- A run ends in one way. -/
theorem iterate_step_unique {r last last' : IncludeRun σ} {n m : Nat}
    (hn : (step h maxDepth)^[n] r = last) (hlast : last.files = [])
    (hm : (step h maxDepth)^[m] r = last') (hlast' : last'.files = []) : last = last' := by
  have hstay {r : IncludeRun σ} (hr : r.files = []) (k : Nat) : (step h maxDepth)^[k] r = r :=
    Function.iterate_fixed (step_of_files_eq_nil hr) k
  rcases Nat.le_total n m with hle | hle
  · obtain ⟨k, rfl⟩ := Nat.exists_eq_add_of_le' hle
    rw [Function.iterate_add_apply, hn, hstay hlast] at hm
    exact hm
  · obtain ⟨k, rfl⟩ := Nat.exists_eq_add_of_le' hle
    rw [Function.iterate_add_apply, hm, hstay hlast'] at hn
    exact hn.symm

/-- **The books of a run hold the calls of its exchanges**, and to keep them changes nothing. -/
theorem runSource_recorded {source : Source} {handler : σ} {n : Nat} {es : List Exchange}
    (hn : (step h maxDepth)^[n] (start source handler) =
      ⟨[], runSource h maxDepth source handler, es⟩) :
    runSource (recorded h) maxDepth source (handler, []) =
      (runSource h maxDepth source handler).withHandler
        ((runSource h maxDepth source handler).handler, es.flatMap Exchange.calls) := by
  obtain ⟨m, es', hm⟩ := exists_iterate_step_start (recorded h) maxDepth source (handler, [])
  have hbooks : (step (recorded h) maxDepth)^[n] (start source (handler, [])) =
      withBooks ⟨[], runSource h maxDepth source handler, es⟩ := by
    rw [← hn, ← iterate_step_withBooks]
    rfl
  exact congrArg IncludeRun.session (iterate_step_unique hm rfl hbooks rfl)

/-! ## Open files -/

/-- The files that are open after some calls, if `handles` were open before. -/
def openHandles (handles : List Include.Handle) : List HandlerCall → List Include.Handle
  | [] => handles
  | .acquired _ (.error _) :: calls => openHandles handles calls
  | .acquired _ (.ok handle) :: calls => openHandles (handle :: handles) calls
  | .released handle :: calls => openHandles (handles.erase handle) calls

theorem openHandles_append (handles : List Include.Handle) (calls more : List HandlerCall) :
    openHandles handles (calls ++ more) = openHandles (openHandles handles calls) more := by
  induction calls generalizing handles with
  | nil => rfl
  | cons call calls ih =>
    cases call with
    | acquired request answer =>
      cases answer with
      | error failure => exact ih handles
      | ok handle => exact ih (handle :: handles)
    | released handle => exact ih (handles.erase handle)

/-- An exchange leaves nothing open. -/
theorem openHandles_exchange (e : Exchange) : openHandles [] e.calls = [] := by
  obtain ⟨line, request, answer⟩ := e
  cases answer with
  | error failure => rfl
  | ok handle =>
    change [handle].erase handle = []
    rw [List.erase_cons_head]

theorem openHandles_exchanges (es : List Exchange) :
    openHandles [] (es.flatMap Exchange.calls) = [] := by
  induction es with
  | nil => rfl
  | cons e es ih => rw [List.flatMap_cons, openHandles_append, openHandles_exchange, ih]

/-- In the middle of an exchange one file may be open. -/
theorem length_openHandles_exchange {e : Exchange} {calls : List HandlerCall}
    (hc : calls <+: e.calls) : (openHandles [] calls).length ≤ 1 := by
  obtain ⟨line, request, answer⟩ := e
  cases calls with
  | nil => exact Nat.zero_le 1
  | cons call calls =>
    cases answer with
    | error failure =>
      obtain ⟨rfl, hrest⟩ := List.cons_prefix_cons.1 hc
      rw [List.prefix_nil.1 hrest]
      exact Nat.zero_le 1
    | ok handle =>
      obtain ⟨rfl, hrest⟩ := List.cons_prefix_cons.1 hc
      cases calls with
      | nil => exact Nat.le_refl 1
      | cons call calls =>
        obtain ⟨rfl, hnone⟩ := List.cons_prefix_cons.1 hrest
        rw [List.prefix_nil.1 hnone]
        change ([handle].erase handle).length ≤ 1
        rw [List.erase_cons_head]
        exact Nat.zero_le 1

/-- **Never more than one file is open.** -/
theorem length_openHandles_le {es : List Exchange} {calls : List HandlerCall}
    (hc : calls <+: es.flatMap Exchange.calls) : (openHandles [] calls).length ≤ 1 := by
  induction es generalizing calls with
  | nil =>
    rw [List.prefix_nil.1 hc]
    exact Nat.zero_le 1
  | cons e es ih =>
    obtain ⟨more, hmore⟩ := hc
    rw [List.flatMap_cons] at hmore
    rcases List.append_eq_append_iff.1 hmore with ⟨rest, hrest, _⟩ | ⟨rest, rfl, hrest⟩
    · exact length_openHandles_exchange ⟨rest, hrest.symm⟩
    · rw [openHandles_append, openHandles_exchange]
      exact ih ⟨more, hrest.symm⟩

end IncludeRun

end Preprocess
end ShaderKit
