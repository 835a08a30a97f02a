import ShaderKit.Backend
import ShaderKit.Proofs.IncludeStack
import ShaderKit.Proofs.JobEffects
import ShaderKit.Proofs.LineEnds

/-!
# File systems that are alike

Of two file systems that differ in the bytes of their files only, a path leads to the same place in
either, and can be written in either or in none (`FileSystem.Alike`).

A job never looks at the bytes of a file as they are: the source and what is included are turned
into texts first.  So a job has the same effects on file systems that are alike in the texts of
their files (`sameEffects_of_alike`).  For included files this is a fact about handlers.  All that a
run sees of its handler is `Include.Handler.openText`, and runs with handlers that agree in it are
the same (`engine_congr`).

The last section has the case of line ends: a carriage return can be put in front of any line feed
of any file.
-/

set_option autoImplicit false

namespace ShaderKit

/-! ## What a run sees of its handler -/

/-- The text of an include file, taken and given back at once. -/
def Include.Handler.openText {σ : Type} (h : Include.Handler σ) (state : σ)
    (request : Include.Request) : Except Include.Failure (List Char) × σ :=
  match h.acquire state request with
  | (.error failure, state) => (.error failure, state)
  | (.ok handle, state) => (.ok (Preprocess.includedText handle), h.release state handle)

namespace Preprocess

variable {σ : Type} {h h' : Include.Handler σ}

theorem runInclude_eq (h : Include.Handler σ) (nested : Option (FileRunner σ)) (file : String)
    (arguments : List Char) (s : Session σ) :
    runInclude h nested file arguments s =
      match includeTarget s.macros arguments with
      | .error fault => (s, some fault)
      | .ok (kind, name) =>
        match nested with
        | none => (s, some .includeTooDeep)
        | some run =>
          match h.openText s.handler ⟨kind, String.ofList name, some file⟩ with
          | (.error failure, handler) => ({ s with handler }, some (.includeFailed name failure))
          | (.ok text, handler) => (run (String.ofList name) text { s with handler }, none) := by
  rw [runInclude]
  cases includeTarget s.macros arguments with
  | error fault => rfl
  | ok target =>
    cases nested with
    | none => rfl
    | some run =>
      dsimp only [Include.Handler.openText]
      rcases h.acquire s.handler ⟨target.1, String.ofList target.2, some file⟩ with
        ⟨failure | handle, handler⟩
      · rfl
      · rfl

section

variable (hopen : h.openText = h'.openText)

include hopen

theorem runAction_congr : runAction h = runAction h' := by
  funext nested file a s
  cases a with
  | «include» arguments =>
    rw [runAction, runAction, runInclude_eq, runInclude_eq, hopen]
  | _ => rfl

theorem runLine_congr : runLine h = runLine h' := by
  have hstripped : runStripped h = runStripped h' := by
    funext nested file number line st
    cases line with
    | action a => rw [runStripped_action, runStripped_action, runAction_congr hopen]
    | conditional c => rfl
    | text t => rfl
  funext nested file st line
  rw [runLine, runLine, hstripped]

theorem runFile_congr (depth : Nat) : runFile h depth = runFile h' depth := by
  have hlines : runLines h = runLines h' := by
    funext nested file text s
    rw [runLines, runLines, runLine_congr hopen]
  induction depth with
  | zero => rw [runFile, runFile, hlines]
  | succ depth ih => rw [runFile, runFile, hlines, ih]

/-- **All that a run sees of its handler** are the texts it opens. -/
theorem engine_congr (maxDepth : Nat) (source : Source) (handler : σ) :
    (engine maxDepth).preprocess h source handler =
      (engine maxDepth).preprocess h' source handler := by
  simp only [engine, runSource, runFile_congr hopen]

end

end Preprocess

/-! ## Paths in file systems that are alike -/

/-- Two files with bytes that are related, or twice the same that is no file: nothing, a directory
or the device. -/
inductive NodeAlike (R : List UInt8 → List UInt8 → Prop) : Option Node → Option Node → Prop
  | nothing : NodeAlike R none none
  | file {data data' : List UInt8} (h : R data data') :
      NodeAlike R (some (.file data)) (some (.file data'))
  | directory : NodeAlike R (some .directory) (some .directory)
  | fullDevice : NodeAlike R (some .fullDevice) (some .fullDevice)

namespace NodeAlike

variable {R : List UInt8 → List UInt8 → Prop} {node node' : Option Node}
  (h : NodeAlike R node node')

include h

theorem isNone_eq : node.isNone = node'.isNone := by
  cases h <;> rfl

theorem directory_iff : node = some .directory ↔ node' = some .directory := by
  cases h <;> simp

theorem fullDevice_iff : node = some .fullDevice ↔ node' = some .fullDevice := by
  cases h <;> simp

end NodeAlike

namespace FileSystem

/-- The same places, where files have bytes that are related. -/
structure Alike (R : List UInt8 → List UInt8 → Prop) (fs fs' : FileSystem) : Prop where
  current : fs.current = fs'.current
  node? : ∀ place, NodeAlike R (fs.node? place) (fs'.node? place)

namespace Alike

variable {R : List UInt8 → List UInt8 → Prop} {fs fs' : FileSystem} (h : fs.Alike R fs')

include h

theorem isDirectory : fs.isDirectory = fs'.isDirectory := by
  funext place
  simp only [FileSystem.isDirectory, (h.node? place).directory_iff]

theorem enter : fs.enter = fs'.enter := by
  funext place name
  rw [FileSystem.enter, FileSystem.enter, h.isDirectory, (h.node? _).isNone_eq]

theorem walk : fs.walk = fs'.walk := by
  funext place steps
  rw [FileSystem.walk, FileSystem.walk, h.enter]

theorem start : fs.start = fs'.start := by
  funext path
  rw [FileSystem.start, FileSystem.start, h.current]

theorem settle : fs.settle = fs'.settle := by
  funext path place
  rw [FileSystem.settle, FileSystem.settle, h.isDirectory]

theorem locate : fs.locate = fs'.locate := by
  funext path
  rw [FileSystem.locate, FileSystem.locate, h.walk, h.start, h.settle]

theorem placeToWrite : fs.placeToWrite = fs'.placeToWrite := by
  funext path
  rw [FileSystem.placeToWrite, FileSystem.placeToWrite, h.walk, h.start, h.isDirectory]

theorem samePlace : fs.samePlace = fs'.samePlace := by
  have hfull : fs.enterInFull = fs'.enterInFull := by
    funext place name
    rw [enterInFull, enterInFull, h.enter]
  have hcanonical : fs.canonicalPlace = fs'.canonicalPlace := by
    funext path
    rw [canonicalPlace, canonicalPlace, hfull, h.start, h.settle]
  funext p q
  rw [FileSystem.samePlace, FileSystem.samePlace, hcanonical]

/-- Regular files are in the same places, and whatever is the same for bytes that are related is the
same for their bytes. -/
theorem map_regularFile? {α : Type} {f : List UInt8 → α} (hf : ∀ data data', R data data' →
    f data = f data') (path : String) :
    (fs.regularFile? path).map f = (fs'.regularFile? path).map f := by
  rw [FileSystem.regularFile?, FileSystem.regularFile?, h.locate]
  cases fs'.locate path with
  | error e => rfl
  | ok place =>
    have hnode := h.node? place
    dsimp only
    generalize fs.node? place = node, fs'.node? place = node' at hnode ⊢
    cases hnode with
    | file hdata => exact congrArg some (hf _ _ hdata)
    | nothing | directory | fullDevice => rfl

/-- What can be read in one, can be read in the other; and if not, the reason is the same. -/
theorem read (path : String) :
    (fs.read path = fs'.read path) ∨
      ∃ data data', R data data' ∧ fs.read path = .ok data ∧ fs'.read path = .ok data' := by
  rw [FileSystem.read, FileSystem.read, h.locate]
  cases fs'.locate path with
  | error e => exact .inl rfl
  | ok place =>
    have hnode := h.node? place
    simp only [bind, Except.bind]
    generalize fs.node? place = node, fs'.node? place = node' at hnode ⊢
    cases hnode with
    | file hdata => exact .inr ⟨_, _, hdata, rfl, rfl⟩
    | nothing | directory | fullDevice => exact .inl rfl

/-- The same can be put at a place of both. -/
theorem set (hrefl : ∀ data, R data data) (place : Place) (data : List UInt8) :
    (fs.set place (.file data)).Alike R (fs'.set place (.file data)) where
  current := h.current
  node? other := by
    by_cases hroot : other = []
    · subst hroot
      exact .directory
    by_cases hother : other = place
    · subst hother
      rw [node?_set_self hroot, node?_set_self hroot]
      exact .file (hrefl data)
    · rw [node?_set_of_ne hother, node?_set_of_ne hother]
      exact h.node? other

end Alike

/-- File systems are alike if their entries are. -/
theorem alike_of_forall₂ {R : List UInt8 → List UInt8 → Prop} {fs fs' : FileSystem}
    (hcurrent : fs.current = fs'.current)
    (hnodes : List.Forall₂ (fun entry entry' => entry.1 = entry'.1 ∧
      NodeAlike R (some entry.2) (some entry'.2)) fs.nodes fs'.nodes) : fs.Alike R fs' := by
  obtain ⟨nodes, current⟩ := fs
  obtain ⟨nodes', current'⟩ := fs'
  refine ⟨hcurrent, fun place => ?_⟩
  simp only [FileSystem.node?]
  split
  · exact .directory
  dsimp only at hnodes
  induction hnodes with
  | nil => exact .nothing
  | @cons entry entry' _ _ hentry _ ih =>
    obtain ⟨place', node⟩ := entry
    obtain ⟨_, node'⟩ := entry'
    obtain ⟨rfl, hnode⟩ := hentry
    rw [List.lookup_cons, List.lookup_cons]
    cases place == place' with
    | false => exact ih hcurrent
    | true => exact hnode

theorem mem_nodes_of_node?_eq_file {fs : FileSystem} {place : Place} {data : List UInt8}
    (h : fs.node? place = some (.file data)) : (place, .file data) ∈ fs.nodes := by
  rw [FileSystem.node?] at h
  split at h
  · cases h
  · obtain ⟨before, after, hnodes, -⟩ := List.lookup_eq_some_iff.1 h
    rw [hnodes]
    exact List.mem_append_right _ List.mem_cons_self

end FileSystem

/-! ## Files that read as the same texts -/

/-- The bytes read as the same text. -/
def Text.SameText (data data' : List UInt8) : Prop :=
  normaliseNewlines (Utf8.decode data) = normaliseNewlines (Utf8.decode data')

section

variable {fs fs' : FileSystem} (h : fs.Alike Text.SameText fs')

include h

theorem Include.map_resolve_eq (search : SearchPath) (name : String) :
    (resolve fs search name).map Preprocess.includedText =
      (resolve fs' search name).map Preprocess.includedText := by
  have hfound : (search.directories.findSome? fun dir =>
        (fs.regularFile? (Path.join dir name)).map fun data =>
          (⟨Path.join dir name, data⟩ : Handle)).map Preprocess.includedText =
      (search.directories.findSome? fun dir =>
        (fs'.regularFile? (Path.join dir name)).map fun data =>
          (⟨Path.join dir name, data⟩ : Handle)).map Preprocess.includedText := by
    rw [List.map_findSome?, List.map_findSome?]
    refine congrArg (search.directories.findSome? ·) (funext fun dir => ?_)
    simp only [Function.comp, Option.map_map]
    exact h.map_regularFile? (fun _ _ hdata => hdata) _
  rw [resolve, resolve]
  split
  · rfl
  split
  · rfl
  dsimp only
  generalize (search.directories.findSome? _) = found at hfound ⊢
  generalize (search.directories.findSome? _) = found' at hfound ⊢
  cases found with
  | none =>
    rw [Option.map_eq_none_iff.1 hfound.symm]
  | some handle =>
    obtain ⟨handle', rfl, htext⟩ := Option.map_eq_some_iff.1 hfound.symm
    exact congrArg Except.ok htext.symm

/-- The same texts are opened, and the same books are kept. -/
theorem Include.openText_searchHandler (search : SearchPath) :
    (searchHandler fs search).openText = (searchHandler fs' search).openText := by
  funext books request
  have hresolve := Include.map_resolve_eq h search request.name
  simp only [Handler.openText, searchHandler, Books.acquire]
  generalize resolve fs search request.name = answer at hresolve ⊢
  generalize resolve fs' search request.name = answer' at hresolve ⊢
  cases answer with
  | error failure =>
    cases answer' with
    | error failure' =>
      cases hresolve
      rfl
    | ok handle' => cases hresolve
  | ok handle =>
    cases answer' with
    | error failure' => cases hresolve
    | ok handle' =>
      exact Prod.ext hresolve rfl

end

/-! ## Jobs -/

namespace Job

/-- Two runs of a job, each on a file system of its own, have the same effects. -/
structure SameEffects (job : Job) (fs fs' : FileSystem) (r r' : Except JobError Unit × World) :
    Prop where
  result : r.1 = r'.1
  out : r.2.out = r'.2.out
  err : r.2.err = r'.2.err
  /-- Neither changes a file, or both put the same bytes at the same place, and the target holds
  them then. -/
  files : (r.2.files = fs ∧ r'.2.files = fs') ∨ ∃ place output,
    (r.2.files = fs.set place (.file output) ∧ r.2.files.read job.target = .ok output) ∧
      r'.2.files = fs'.set place (.file output) ∧ r'.2.files.read job.target = .ok output
  /-- Written or not, a target that was the same before is the same afterwards. -/
  target : fs.read job.target = fs'.read job.target →
    r.2.files.read job.target = r'.2.files.read job.target

theorem sameEffects_of_unchanged {job : Job} {fs fs' : FileSystem}
    {result : Except JobError Unit} {out err : Stream} :
    SameEffects job fs fs' (result, ⟨fs, out, err⟩) (result, ⟨fs', out, err⟩) :=
  ⟨rfl, rfl, rfl, .inl ⟨rfl, rfl⟩, id⟩

theorem sameEffects_of_written {job : Job} {fs fs' : FileSystem} {place : Place}
    (hplace : fs.placeToWrite job.target = .ok place)
    (hplace' : fs'.placeToWrite job.target = .ok place)
    {result : Except JobError Unit} {output : List UInt8} {out err : Stream} :
    SameEffects job fs fs' (result, ⟨fs.set place (.file output), out, err⟩)
      (result, ⟨fs'.set place (.file output), out, err⟩) := by
  have hread : (fs.set place (.file output)).read job.target = .ok output :=
    (FileSystem.createsAt_of_placeToWrite hplace).read_set
  have hread' : (fs'.set place (.file output)).read job.target = .ok output :=
    (FileSystem.createsAt_of_placeToWrite hplace').read_set
  exact ⟨rfl, rfl, rfl, .inr ⟨place, output, ⟨rfl, hread⟩, rfl, hread'⟩,
    fun _ => hread.trans hread'.symm⟩

section

variable {fs fs' : FileSystem} (h : fs.Alike Text.SameText fs')

include h

theorem prepare_of_alike (job : Job) : job.prepare fs = job.prepare fs' := by
  have hload : loadSource fs job.source = loadSource fs' job.source := by
    rw [loadSource, loadSource]
    rcases h.read job.source with hsame | ⟨data, data', htext, hread, hread'⟩
    · rw [hsame]
    · rw [hread, hread']
      exact congrArg (fun text => Except.ok (String.ofList text)) htext
  rw [prepare, prepare, validate, validate, h.samePlace, hload]

theorem consult_of_alike (job : Job) (maxDepth : Nat) (source : Source) :
    job.consult (Preprocess.engine maxDepth) fs source =
      job.consult (Preprocess.engine maxDepth) fs' source :=
  Preprocess.engine_congr (Include.openText_searchHandler h job.search) maxDepth source {}

/-- What an engine has answered has the same effects on either. -/
theorem sameEffects_conclude (job : Job) (answer : Outcome × Include.Books) (out err : Stream) :
    SameEffects job fs fs' (job.conclude answer ⟨fs, out, err⟩)
      (job.conclude answer ⟨fs', out, err⟩) := by
  obtain ⟨outcome, books⟩ := answer
  rw [conclude, conclude]
  dsimp only
  cases (err.writeLines (unresolvedLines books)).1 with
  | error reason => exact sameEffects_of_unchanged
  | ok _ =>
    cases outcome with
    | failure diagnostics => exact sameEffects_of_unchanged
    | success output =>
      dsimp only [deliver]
      rw [writeTarget_eq, writeTarget_eq, h.placeToWrite]
      cases hplace : fs'.placeToWrite job.target with
      | error reason => exact sameEffects_of_unchanged
      | ok place =>
        simp only [(h.node? place).fullDevice_iff]
        by_cases hdevice : fs'.node? place = some .fullDevice
        · simp only [if_pos hdevice]
          exact sameEffects_of_unchanged
        · simp only [if_neg hdevice]
          exact sameEffects_of_written ((congrFun h.placeToWrite _).trans hplace) hplace

/-- **A job depends on the texts of files only**: it has the same effects on file systems whose
files read as the same texts. -/
theorem sameEffects_of_alike (job : Job) (maxDepth : Nat) (out err : Stream) :
    SameEffects job fs fs' (job.run (Preprocess.engine maxDepth) ⟨fs, out, err⟩)
      (job.run (Preprocess.engine maxDepth) ⟨fs', out, err⟩) := by
  have hprepare := prepare_of_alike h job
  cases hsource : job.prepare fs' with
  | error e =>
    rw [hsource] at hprepare
    rw [run_of_prepare_eq_error (w := ⟨fs, out, err⟩) hprepare,
      run_of_prepare_eq_error (w := ⟨fs', out, err⟩) hsource]
    exact sameEffects_of_unchanged
  | ok source =>
    rw [hsource] at hprepare
    rw [run_of_prepare_eq_ok (w := ⟨fs, out, err⟩) hprepare,
      run_of_prepare_eq_ok (w := ⟨fs', out, err⟩) hsource, consult_of_alike h]
    exact sameEffects_conclude h job _ out err

end

/-! ## Line ends -/

/-- **Line ends do not matter.**  If no file has a carriage return right before a line feed, then
carriage returns can be put in front of any line feeds of any files: a job reports the same, writes
the same to either stream, and leaves the same in the target. -/
theorem run_respelled {fs fs' : FileSystem}
    (hplain : ∀ place data, fs.node? place = some (.file data) → Text.IsPlain 0x0D 0x0A data)
    (hfiles : fs.Alike (Text.Respelled 0x0D 0x0A) fs') (job : Job) (maxDepth : Nat)
    (out err : Stream) :
    SameEffects job fs fs' (job.run (Backend.builtin.engine maxDepth) ⟨fs, out, err⟩)
      (job.run (Backend.builtin.engine maxDepth) ⟨fs', out, err⟩) := by
  refine sameEffects_of_alike ⟨hfiles.current, fun place => ?_⟩ job maxDepth out err
  have hdata := hplain place
  have hnode := hfiles.node? place
  generalize fs.node? place = node, fs'.node? place = node' at hnode hdata ⊢
  cases hnode with
  | nothing => exact .nothing
  | file hrespelled =>
    exact .file (Utf8.text_of_respelled hrespelled (hdata _ rfl)).symm
  | directory => exact .directory
  | fullDevice => exact .fullDevice

/-- The line `#include "i"`. -/
def includingBytes : List UInt8 :=
  [0x23, 0x69, 0x6E, 0x63, 0x6C, 0x75, 0x64, 0x65, 0x20, 0x22, 0x69, 0x22]

/-- A line that defines `A` as a byte that is not UTF-8, a carriage return and a letter. -/
def definingBytes : List UInt8 :=
  [0x23, 0x64, 0x65, 0x66, 0x69, 0x6E, 0x65, 0x20, 0x41, 0x20, 0xFF, 0x0D, 0x62]

/-- A source and a file that it includes. -/
def feedFiles : FileSystem where
  nodes := [(["s"], .file (includingBytes ++ [0x0A, 0x41, 0x0A])),
    (["i"], .file (definingBytes ++ [0x0A]))]
  current := []

/-- The same files with a carriage return at the end of one line of each. -/
def returnFiles : FileSystem where
  nodes := [(["s"], .file (includingBytes ++ [0x0D, 0x0A, 0x41, 0x0A])),
    (["i"], .file (definingBytes ++ [0x0D, 0x0A]))]
  current := []

/-- The source is to be preprocessed. -/
def includingJob : Job where
  source := "s"
  target := "t"
  definitions := []
  search := .withCurrent []

theorem run_respelled_includingJob :
    (∀ place data, feedFiles.node? place = some (.file data) → Text.IsPlain 0x0D 0x0A data) ∧
      feedFiles.Alike (Text.Respelled 0x0D 0x0A) returnFiles ∧
      SameEffects includingJob feedFiles returnFiles
        (includingJob.run (Backend.builtin.engine 1) ⟨feedFiles, {}, {}⟩)
        (includingJob.run (Backend.builtin.engine 1) ⟨returnFiles, {}, {}⟩) := by
  have hplain : ∀ place data, feedFiles.node? place = some (.file data) →
      Text.IsPlain 0x0D 0x0A data := by
    intro place data hdata
    have hmem := FileSystem.mem_nodes_of_node?_eq_file hdata
    simp only [feedFiles, List.mem_cons, Prod.mk.injEq, Node.file.injEq, List.not_mem_nil,
      or_false] at hmem
    rcases hmem with ⟨-, rfl⟩ | ⟨-, rfl⟩
    · simp [Text.IsPlain, includingBytes, List.infix_cons_iff]
    · simp [Text.IsPlain, definingBytes, List.infix_cons_iff]
  have hfiles : feedFiles.Alike (Text.Respelled 0x0D 0x0A) returnFiles := by
    refine FileSystem.alike_of_forall₂ rfl (.cons ⟨rfl, .file ?_⟩ (.cons ⟨rfl, .file ?_⟩ .nil))
    · exact .append_left includingBytes (.put (.refl _))
    · exact .append_left definingBytes (.put (.refl _))
  exact ⟨hplain, hfiles, run_respelled hplain hfiles includingJob 1 {} {}⟩

end Job
end ShaderKit
