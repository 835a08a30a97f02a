import ShaderKit.Job
import ShaderKit.Proofs.FileChange

/-!
# The effects of a job

A job that is not ready (`Job.IsReady`) changes nothing.  Of one that is, the engine is called, and
what happens then is one of four things (`Job.Concludes`): the error stream breaks off, the engine
has reported something, the target cannot be written, or it is written and then echoed.  Only in the
last case anything changes besides the error stream, and then it is the place of the target that
changes (`Job.Concludes.files_eq`).

That the engine is called once is said of the run that keeps a list of the sources that the engine
is called on (`Job.runNoting`).  It is the same run.

The source is safe as long as the two paths of the job do not lead too deep.  The system does not
tell where a path leads that does, and then the job takes the two files for different ones, although
they may be the same; the last section has a job that overwrites its source.
-/

set_option autoImplicit false

namespace ShaderKit

/-! ## Definitions -/

namespace Definition

/-- A string spells a definition: there is one equals sign, and something on either side of it. -/
structure IsSpelledBy (d : Definition) (raw : String) : Prop where
  toList_eq : raw.toList = d.name.toList ++ '=' :: d.value.toList
  name_ne : d.name ≠ ""
  value_ne : d.value ≠ ""
  not_mem_name : '=' ∉ d.name.toList
  not_mem_value : '=' ∉ d.value.toList

theorem parse_eq_ok_iff {raw : String} {d : Definition} :
    parse raw = .ok d ↔ d.IsSpelledBy raw := by
  constructor
  · intro h
    rw [parse] at h
    cases hcut : Text.cutAt? '=' raw.toList with
    | none =>
      rw [hcut] at h
      cases h
    | some parts =>
      obtain ⟨name, value⟩ := parts
      rw [hcut] at h
      obtain ⟨hraw, hname⟩ := Text.eq_append_of_cutAt? hcut
      dsimp only at h
      split_ifs at h with hbad
      cases h
      simp only [Bool.or_eq_true, List.isEmpty_iff, List.contains_iff_mem, not_or] at hbad
      exact ⟨by simpa using hraw, by simpa using hbad.1.1, by simpa using hbad.1.2,
        by simpa using hname, by simpa using hbad.2⟩
  · intro h
    have hcut : Text.cutAt? '=' raw.toList = some (d.name.toList, d.value.toList) := by
      rw [h.toList_eq, Text.cutAt?_append h.not_mem_name]
    have hgood : ¬ (d.name.toList.isEmpty || d.value.toList.isEmpty ||
        d.value.toList.contains '=') = true := by
      simpa using ⟨⟨h.name_ne, h.value_ne⟩, h.not_mem_value⟩
    simp only [parse, hcut, if_neg hgood, String.ofList_toList]

theorem parseAll_eq_ok_iff {raws : List String} {ds : List Definition} :
    parseAll raws = .ok ds ↔ List.Forall₂ (fun raw d => d.IsSpelledBy raw) raws ds := by
  simp only [parseAll, mapM_eq_ok_iff, parse_eq_ok_iff]

end Definition

namespace Job

variable {job : Job} {engine : Engine} {w : World} {source : Source}

/-! ## Before the engine -/

/-- Nothing is wrong with a job, and this is what the engine gets. -/
structure IsReady (job : Job) (fs : FileSystem) (source : Source) : Prop where
  source_ne : job.source ≠ ""
  target_ne : job.target ≠ ""
  different : fs.samePlace job.source job.target = false
  defined : List.Forall₂ (fun raw d => d.IsSpelledBy raw) job.definitions source.definitions
  named : source.filename = job.source
  loaded : ∃ data, fs.read job.source = .ok data ∧
    source.text = String.ofList (Text.normaliseNewlines (Utf8.decode data))

theorem validate_eq_ok_iff {fs : FileSystem} : job.validate fs = .ok () ↔
    job.source ≠ "" ∧ job.target ≠ "" ∧ fs.samePlace job.source job.target = false := by
  rw [validate]
  split_ifs <;> simp_all

theorem loadSource_eq_ok_iff {fs : FileSystem} {path text : String} :
    loadSource fs path = .ok text ↔ ∃ data, fs.read path = .ok data ∧
      text = String.ofList (Text.normaliseNewlines (Utf8.decode data)) := by
  rw [loadSource]
  cases fs.read path <;> simp [eq_comm]

theorem prepare_eq_ok_iff {fs : FileSystem} :
    job.prepare fs = .ok source ↔ job.IsReady fs source := by
  rw [prepare, bind_eq_ok_iff]
  constructor
  · rintro ⟨⟨⟩, hvalid, h⟩
    obtain ⟨ds, hds, h⟩ := bind_eq_ok_iff.1 h
    obtain ⟨text, htext, h⟩ := bind_eq_ok_iff.1 h
    cases h
    obtain ⟨hsource, htarget, hdifferent⟩ := validate_eq_ok_iff.1 hvalid
    exact ⟨hsource, htarget, hdifferent,
      Definition.parseAll_eq_ok_iff.1 (mapError_eq_ok_iff.1 hds), rfl,
      loadSource_eq_ok_iff.1 htext⟩
  · obtain ⟨filename, text, definitions⟩ := source
    rintro ⟨hsource, htarget, hdifferent, hdefined, rfl, hloaded⟩
    exact ⟨(), validate_eq_ok_iff.2 ⟨hsource, htarget, hdifferent⟩,
      bind_eq_ok_iff.2 ⟨_, mapError_eq_ok_iff.2 (Definition.parseAll_eq_ok_iff.2 hdefined),
        bind_eq_ok_iff.2 ⟨_, loadSource_eq_ok_iff.2 hloaded, rfl⟩⟩⟩

/-! ## After the engine -/

/-- What the error stream gets once the engine has answered. -/
def errorLines (answer : Outcome × Include.Books) : List String :=
  unresolvedLines answer.2 ++ answer.1.diagnostics.map (·.render unknownFile)

/-- The ways in which a job can end once the engine has answered. -/
inductive Concludes (job : Job) (answer : Outcome × Include.Books) (w : World) :
    Except JobError Unit × World → Prop where
  /-- The error stream takes only a part of the lines. -/
  | broken (reason : SystemError) (err : Stream)
      (written : w.err.writeLines (errorLines answer) = (.error reason, err)) :
      Concludes job answer w (.error (.stream reason), { w with err })
  /-- The engine has reported something. -/
  | rejected (diagnostics : List Diagnostic) (err : Stream)
      (failed : answer.1 = .failure diagnostics)
      (written : w.err.writeLines (errorLines answer) = (.ok (), err)) :
      Concludes job answer w (.error (.compileErrors diagnostics.length), { w with err })
  /-- The target does not take the output. -/
  | refused (output : List UInt8) (e : JobError) (err : Stream)
      (succeeded : answer.1 = .success output)
      (written : w.err.writeLines (errorLines answer) = (.ok (), err)) :
      Concludes job answer w (.error e, { w with err })
  /-- The target has the output, and the output stream takes it or does not. -/
  | delivered (output : List UInt8) (place : Place) (result : Except SystemError Unit)
      (out err : Stream) (succeeded : answer.1 = .success output)
      (written : w.err.writeLines (errorLines answer) = (.ok (), err))
      (opened : w.files.placeToWrite job.target = .ok place)
      (echoed : w.out.write (output ++ Utf8.encode ['\n']) = (result, out)) :
      Concludes job answer w
        (result.mapError .stream, { files := w.files.set place (.file output), out, err })

/-- Opening the target and filling it, in one step. -/
theorem writeTarget_eq (job : Job) (fs : FileSystem) (output : List UInt8) :
    job.writeTarget fs output =
      match fs.placeToWrite job.target with
      | .error reason => (.error (.openTarget job.target reason), fs)
      | .ok place =>
        if fs.node? place = some .fullDevice then
          (.error (.writeTarget job.target (if output.isEmpty then .invalidArgument else .noSpace)),
            fs)
        else (.ok (), fs.set place (.file output)) := by
  cases hplace : fs.placeToWrite job.target with
  | error reason =>
    have hopen : fs.openForWriting job.target = .error reason := by
      rw [FileSystem.openForWriting, hplace]
      rfl
    rw [writeTarget, hopen]
  | ok place =>
    by_cases hdevice : fs.node? place = some .fullDevice
    · have hopen : fs.openForWriting job.target = .ok (place, fs) := by
        rw [FileSystem.openForWriting, hplace]
        exact if_pos hdevice
      simp only [writeTarget, hopen, FileSystem.writeTo, if_pos hdevice]
    · have hopen : fs.openForWriting job.target = .ok (place, fs.set place (.file [])) := by
        rw [FileSystem.openForWriting, hplace]
        exact if_neg hdevice
      have hfree := (FileSystem.createsAt_of_placeToWrite hplace).free
      have hempty : (fs.set place (.file [])).node? place = some (.file []) :=
        FileSystem.node?_set_self (FileSystem.ne_nil_of_not_isDirectory hfree)
      simp only [writeTarget, hopen, FileSystem.writeTo, hempty, FileSystem.set_set, if_neg hdevice]
      rfl

/-- The target is written as a whole, or not at all. -/
theorem writeTarget_cases (job : Job) (fs : FileSystem) (output : List UInt8) :
    (∃ e, job.writeTarget fs output = (.error e, fs)) ∨
      ∃ place, fs.placeToWrite job.target = .ok place ∧
        job.writeTarget fs output = (.ok (), fs.set place (.file output)) := by
  rw [writeTarget_eq]
  cases fs.placeToWrite job.target with
  | error reason => exact .inl ⟨_, rfl⟩
  | ok place =>
    dsimp only
    split
    · exact .inl ⟨_, rfl⟩
    · exact .inr ⟨place, rfl, rfl⟩

theorem concludes_conclude (job : Job) (answer : Outcome × Include.Books) (w : World) :
    Concludes job answer w (job.conclude answer w) := by
  obtain ⟨outcome, books⟩ := answer
  have hlines := w.err.writeLines_append (unresolvedLines books)
    (outcome.diagnostics.map (·.render unknownFile))
  rcases hfirst : w.err.writeLines (unresolvedLines books) with ⟨result, err⟩
  rw [hfirst] at hlines
  rw [conclude]
  dsimp only
  rw [hfirst]
  cases result with
  | error reason => exact .broken reason err hlines
  | ok _ =>
    cases outcome with
    | failure diagnostics =>
      rcases hsecond : err.writeLines (diagnostics.map (·.render unknownFile)) with ⟨result, err'⟩
      have hboth := hlines.trans hsecond
      dsimp only [deliver]
      rw [hsecond]
      cases result with
      | error reason => exact .broken reason err' hboth
      | ok _ => exact .rejected diagnostics err' rfl hboth
    | success output =>
      have hwritten : w.err.writeLines (errorLines (.success output, books)) = (.ok (), err) := by
        rw [← hfirst, errorLines]
        exact congrArg _ (List.append_nil _)
      dsimp only [deliver]
      rcases job.writeTarget_cases w.files output with ⟨e, he⟩ | ⟨place, hplace, hwrite⟩
      · rw [he]
        exact .refused output e err rfl hwritten
      · rcases hecho : w.out.write (output ++ Utf8.encode ['\n']) with ⟨result, out⟩
        rw [hwrite]
        exact .delivered output place result out err rfl hwritten hplace hecho

namespace Concludes

variable {answer : Outcome × Include.Books} {ending : Except JobError Unit × World}

/-- Nothing but the place of the target changes, and it holds the output then. -/
theorem files_eq (h : Concludes job answer w ending) :
    ending.2.files = w.files ∨ ∃ output place, answer.1 = .success output ∧
      w.files.placeToWrite job.target = .ok place ∧
        ending.2.files = w.files.set place (.file output) := by
  cases h with
  | broken | rejected | refused => exact .inl rfl
  | delivered output place _ _ _ succeeded _ opened =>
    exact .inr ⟨output, place, succeeded, opened, rfl⟩

theorem node?_eq (h : Concludes job answer w ending) {place : Place}
    (hplace : w.files.placeToWrite job.target ≠ .ok place) :
    ending.2.files.node? place = w.files.node? place := by
  rcases h.files_eq with hfiles | ⟨output, target, -, htarget, hfiles⟩
  · rw [hfiles]
  · rw [hfiles]
    refine FileSystem.node?_set_of_ne ?_
    rintro rfl
    exact hplace htarget

theorem read_eq (h : Concludes job answer w ending) {path : String} {place : Place}
    (hpath : w.files.locate path = .ok place)
    (hne : ∀ target, w.files.placeToWrite job.target = .ok target → place ≠ target) :
    ending.2.files.read path = w.files.read path := by
  rcases h.files_eq with hfiles | ⟨output, target, -, htarget, hfiles⟩
  · rw [hfiles]
  · rw [hfiles]
    exact FileSystem.read_set_of_ne (FileSystem.createsAt_of_placeToWrite htarget).free hpath
      (hne target htarget)

/-- The source of a job that is ready is kept apart from its target. -/
theorem read_source (h : Concludes job answer w ending) (hready : job.IsReady w.files source)
    (hsource : w.files.IsShallow job.source) (htarget : w.files.IsShallow job.target) :
    ending.2.files.read job.source = w.files.read job.source := by
  obtain ⟨data, hdata, -⟩ := hready.loaded
  obtain ⟨place, hlocate, hnode⟩ := FileSystem.exists_locate_of_read_eq_ok hdata
  exact h.read_eq hlocate fun target hplace =>
    FileSystem.ne_of_samePlace_eq_false hready.different hsource htarget hlocate hnode
      (FileSystem.createsAt_of_placeToWrite hplace)

/-- The error stream gets its lines, or as much of them as it takes. -/
theorem err_eq (h : Concludes job answer w ending) :
    ending.2.err = (w.err.writeLines (errorLines answer)).2 := by
  cases h with
  | broken _ _ written | rejected _ _ _ written | refused _ _ _ _ written
  | delivered _ _ _ _ _ _ written => rw [written]

/-- Where something was reported, or the error stream broke off, nothing else changes. -/
theorem unchanged (h : Concludes job answer w ending)
    (hfailed : (∃ diagnostics, answer.1 = .failure diagnostics) ∨
      (w.err.writeLines (errorLines answer)).1 ≠ .ok ()) :
    ending.2.files = w.files ∧ ending.2.out = w.out := by
  cases h with
  | broken | rejected | refused => exact ⟨rfl, rfl⟩
  | delivered _ _ _ _ _ succeeded written =>
    rcases hfailed with ⟨diagnostics, hfailure⟩ | hbroken
    · rw [succeeded] at hfailure
      cases hfailure
    · rw [written] at hbroken
      exact absurd rfl hbroken

/-- A success means that everything was written. -/
theorem of_ok (h : Concludes job answer w ending) (hok : ending.1 = .ok ()) :
    ∃ output, answer.1 = .success output ∧ ending.2.files.read job.target = .ok output ∧
      ending.2.out.written = w.out.written ++ (output ++ Utf8.encode ['\n']) ∧
      ending.2.err.written = w.err.written ++ Stream.bytesOfLines (unresolvedLines answer.2) := by
  cases h with
  | broken | rejected | refused => cases hok
  | delivered output place result out err succeeded written opened echoed =>
    cases result with
    | error reason => cases hok
    | ok _ =>
      have hlines : errorLines answer = unresolvedLines answer.2 := by
        rw [errorLines, succeeded]
        exact List.append_nil _
      rw [hlines] at written
      refine ⟨output, succeeded, (FileSystem.createsAt_of_placeToWrite opened).read_set, ?_, ?_⟩
      · rw [Stream.eq_of_write_eq_ok echoed]
      · rw [Stream.eq_of_write_eq_ok written]

end Concludes

/-! ## The whole run -/

theorem run_of_prepare_eq_error {e : JobError} (h : job.prepare w.files = .error e) :
    job.run engine w = (.error e, w) := by
  rw [run, runWith, h]
  rfl

theorem run_of_prepare_eq_ok (h : job.prepare w.files = .ok source) :
    job.run engine w = job.conclude (job.consult engine w.files source) w := by
  rw [run, runWith, h]
  rfl

/-- Notes a source, and has the engine called on it. -/
def consultNoting (job : Job) (engine : Engine) (fs : FileSystem) (source : Source) :
    StateM (List Source) (Outcome × Include.Books) := do
  modify (· ++ [source])
  return job.consult engine fs source

/-- A run, together with the sources that the engine is called on. -/
def runNoting (job : Job) (engine : Engine) (w : World) :
    (Except JobError Unit × World) × List Source :=
  (job.runWith (job.consultNoting engine w.files) w).run []

/-- The sources that the engine is called on. -/
def calls (job : Job) (engine : Engine) (w : World) : List Source := (job.runNoting engine w).2

/-- A job that is not ready does nothing; otherwise the engine is called once. -/
theorem runNoting_cases (job : Job) (engine : Engine) (w : World) :
    ((∀ source, ¬ job.IsReady w.files source) ∧
      ∃ e, job.runNoting engine w = ((.error e, w), []) ∧ job.run engine w = (.error e, w)) ∨
    ∃ source, job.IsReady w.files source ∧
      job.runNoting engine w = (job.run engine w, [source]) ∧
      Concludes job (job.consult engine w.files source) w (job.run engine w) := by
  cases hprepare : job.prepare w.files with
  | error e =>
    refine .inl ⟨fun source hready => ?_, e, ?_, run_of_prepare_eq_error hprepare⟩
    · rw [prepare_eq_ok_iff.2 hready] at hprepare
      cases hprepare
    · rw [runNoting, runWith, hprepare]
      rfl
  | ok source =>
    have hrun : job.run engine w = _ := run_of_prepare_eq_ok hprepare
    refine .inr ⟨source, prepare_eq_ok_iff.1 hprepare, ?_, ?_⟩
    · rw [hrun, runNoting, runWith, hprepare]
      rfl
    · rw [hrun]
      exact concludes_conclude job _ w

/-- What a run of a job does, and what it leaves alone. -/
structure AllOrNothing (job : Job) (engine : Engine) (w : World) : Prop where
  /-- To note what is called makes no difference. -/
  noted : (job.runNoting engine w).1 = job.run engine w
  /-- The engine is called exactly if the job is ready, once, and on what the job was read as. -/
  called : (job.calls engine w = [] ∧ ∀ source, ¬ job.IsReady w.files source) ∨
    ∃ source, job.calls engine w = [source] ∧ job.IsReady w.files source
  /-- Without the engine nothing happens. -/
  uncalled : job.calls engine w = [] → (job.run engine w).2 = w
  /-- If the engine reports something, or the error stream breaks off, then neither a file nor the
  output stream changes. -/
  failed : ∀ source ∈ job.calls engine w,
    (∃ diagnostics, (job.consult engine w.files source).1 = .failure diagnostics) ∨
        (w.err.writeLines (errorLines (job.consult engine w.files source))).1 ≠ .ok () →
      (job.run engine w).2.files = w.files ∧ (job.run engine w).2.out = w.out
  /-- The error stream gets its lines, or as much of them as it takes. -/
  reported : ∀ source ∈ job.calls engine w, (job.run engine w).2.err =
    (w.err.writeLines (errorLines (job.consult engine w.files source))).2
  /-- No place changes but that of the target. -/
  elsewhere : ∀ place, w.files.placeToWrite job.target ≠ .ok place →
    (job.run engine w).2.files.node? place = w.files.node? place
  /-- The files stay as they are, or the target holds all of the output. -/
  whole : (job.run engine w).2.files = w.files ∨
    ∃ source ∈ job.calls engine w, ∃ output,
      (job.consult engine w.files source).1 = .success output ∧
        (job.run engine w).2.files.read job.target = .ok output
  /-- The source reads as before, if neither path leads through a place that is too deep. -/
  kept : w.files.IsShallow job.source → w.files.IsShallow job.target →
    (job.run engine w).2.files.read job.source = w.files.read job.source
  /-- After a success the target holds the output, the output stream got it with a line end, and the
  error stream got a line for each include file that was not found, and nothing else. -/
  succeeded : (job.run engine w).1 = .ok () →
    ∃ source output, job.calls engine w = [source] ∧
      (job.consult engine w.files source).1 = .success output ∧
      (job.run engine w).2.files.read job.target = .ok output ∧
      (job.run engine w).2.out.written = w.out.written ++ (output ++ Utf8.encode ['\n']) ∧
      (job.run engine w).2.err.written = w.err.written ++
        Stream.bytesOfLines (unresolvedLines (job.consult engine w.files source).2)

/-- What holds of a job that is not ready. -/
theorem allOrNothing_of_not_isReady (hnever : ∀ source, ¬ job.IsReady w.files source)
    {e : JobError} (hnoting : job.runNoting engine w = ((.error e, w), []))
    (hrun : job.run engine w = (.error e, w)) : AllOrNothing job engine w := by
  have hcalls : job.calls engine w = [] := congrArg Prod.snd hnoting
  constructor <;> simp [hcalls, hnoting, hrun, hnever]

/-- What holds of a job that is ready. -/
theorem allOrNothing_of_concludes (hready : job.IsReady w.files source)
    (hnoting : job.runNoting engine w = (job.run engine w, [source]))
    (hconcludes : Concludes job (job.consult engine w.files source) w (job.run engine w)) :
    AllOrNothing job engine w := by
  have hcalls : job.calls engine w = [source] := congrArg Prod.snd hnoting
  exact {
    noted := congrArg Prod.fst hnoting
    called := .inr ⟨source, hcalls, hready⟩
    uncalled := fun hnil => by
      rw [hcalls] at hnil
      cases hnil
    failed := by
      rw [hcalls, List.forall_mem_singleton]
      exact hconcludes.unchanged
    reported := by
      rw [hcalls, List.forall_mem_singleton]
      exact hconcludes.err_eq
    elsewhere := fun place => hconcludes.node?_eq
    whole := by
      rcases hconcludes.files_eq with hfiles | ⟨output, target, hsuccess, htarget, hfiles⟩
      · exact .inl hfiles
      · refine .inr ⟨source, by rw [hcalls]; exact List.mem_singleton_self _, output, hsuccess, ?_⟩
        rw [hfiles]
        exact (FileSystem.createsAt_of_placeToWrite htarget).read_set
    kept := hconcludes.read_source hready
    succeeded := fun hok => by
      obtain ⟨output, hsuccess, hread, hout, herr⟩ := hconcludes.of_ok hok
      exact ⟨source, output, hcalls, hsuccess, hread, hout, herr⟩ }

/-- **A job has all of its effects or none**, whatever the engine does: it is called at most once, a
run without it or with a failure changes no file, no run changes a file other than the target, and a
success means that everything was written. -/
theorem run_allOrNothing (job : Job) (engine : Engine) (w : World) : AllOrNothing job engine w := by
  rcases job.runNoting_cases engine w with ⟨hnever, e, hnoting, hrun⟩ |
    ⟨source, hready, hnoting, hconcludes⟩
  · exact allOrNothing_of_not_isReady hnever hnoting hrun
  · exact allOrNothing_of_concludes hready hnoting hconcludes

/-- An engine that always gives the same output. -/
def constantEngine (output : List UInt8) : Engine where
  preprocess _ _ state := (.success output, state)

/-- A file in the root, which is the current directory. -/
def plainFiles : FileSystem where
  nodes := [(["f"], .file [0x78, 0x0A])]
  current := []

/-- The file is to be preprocessed into another one. -/
def plainJob : Job where
  source := "f"
  target := "g"
  definitions := []
  search := ⟨[]⟩

theorem run_allOrNothing_plainJob :
    plainFiles.IsShallow "f" ∧ plainFiles.IsShallow "g" ∧
      (plainJob.run (constantEngine [0x79, 0x0A]) { files := plainFiles }).1 = .ok () ∧
      (plainJob.run (constantEngine [0x79, 0x0A]) { files := plainFiles }).2.files.read "g" =
        .ok [0x79, 0x0A] ∧
      (plainJob.run (constantEngine [0x79, 0x0A]) { files := plainFiles }).2.files.read "f" =
        .ok [0x78, 0x0A] := by
  have hsource : plainFiles.IsShallow "f" := by
    have hpieces : Path.pieces "f" = ["f"] := by decide
    refine FileSystem.isShallow_of_pieces_eq_singleton hpieces (by decide) ?_
    intro place hplace
    have hstep : plainFiles.enter (plainFiles.start "f") "f" = .ok ["f"] := by decide
    cases hstep.symm.trans hplace
    decide
  have htarget : plainFiles.IsShallow "g" := by
    have hpieces : Path.pieces "g" = ["g"] := by decide
    refine FileSystem.isShallow_of_pieces_eq_singleton hpieces (by decide) ?_
    intro place hplace
    have hstep : plainFiles.enter (plainFiles.start "g") "g" = .error .notFound := by decide
    cases hstep.symm.trans hplace
  have hok : (plainJob.run (constantEngine [0x79, 0x0A]) { files := plainFiles }).1 = .ok () := by
    decide
  have hrun := run_allOrNothing plainJob (constantEngine [0x79, 0x0A]) { files := plainFiles }
  obtain ⟨source, output, -, hsuccess, hread, -⟩ := hrun.succeeded hok
  cases hsuccess
  have hbefore : plainFiles.read "f" = .ok [0x78, 0x0A] := by decide
  exact ⟨hsource, htarget, hok, hread, (hrun.kept hsource htarget).trans hbefore⟩

/-! ## Where the source is not safe -/

/-- A directory that lies too deep for a full path. -/
def deepDirectory : Place := List.replicate 17 (String.ofList (List.replicate 240 'd'))

/-- A file in that directory, which is the current one. -/
def deepFiles : FileSystem where
  nodes := ("f" :: deepDirectory, .file [0x78, 0x0A]) ::
    (List.range 17).map fun n => (deepDirectory.drop n, .directory)
  current := deepDirectory

/-- The file is to be preprocessed into itself. -/
def overwritingJob : Job where
  source := "f"
  target := "./f"
  definitions := []
  search := ⟨[]⟩

/-- **A job can overwrite its source**: the system does not tell where the two paths of
`overwritingJob` lead, and so they pass for two files. -/
theorem source_overwritten :
    ¬ ∀ (job : Job) (engine : Engine) (w : World),
      (∀ place, w.files.node? place ≠ some .fullDevice) →
        (job.run engine w).2.files.read job.source = w.files.read job.source := by
  intro h
  have hdevices : ∀ place, deepFiles.node? place ≠ some .fullDevice := by
    intro place hplace
    rw [FileSystem.node?] at hplace
    split_ifs at hplace with hroot
    · cases hplace
    obtain ⟨before, after, hnodes, -⟩ := List.lookup_eq_some_iff.1 hplace
    have hmem : (place, Node.fullDevice) ∈ deepFiles.nodes := by
      rw [hnodes]
      exact List.mem_append_right _ List.mem_cons_self
    simp [deepFiles] at hmem
  have hread := h overwritingJob (constantEngine [0x79, 0x0A]) { files := deepFiles } hdevices
  have hbefore : deepFiles.read "f" = .ok [0x78, 0x0A] := by decide +kernel
  have hafter : (overwritingJob.run (constantEngine [0x79, 0x0A])
      { files := deepFiles }).2.files.read "f" = .ok [0x79, 0x0A] := by decide +kernel
  have hsame : (overwritingJob.run (constantEngine [0x79, 0x0A])
      { files := deepFiles }).2.files.read "f" = deepFiles.read "f" := hread
  rw [hbefore, hafter] at hsame
  cases hsame

end Job
end ShaderKit
