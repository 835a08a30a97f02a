import ShaderKit.Engine
import ShaderKit.FileSystem.Canonical
import ShaderKit.Include.Search
import ShaderKit.Stream
import ShaderKit.Text.Newline

/-!
# Preprocessing jobs

A job takes a source file through an engine and writes the result to a target file.  It has two
halves.  `Job.prepare` checks the job and reads the source, and only if nothing is wrong there is
anything for an engine to do; it changes nothing.  `Job.run` then calls the engine, once, and
`Job.conclude` reports.  `Job.runWith` is the same with the call left open, so that it can be told
what is called.

What goes where, in this order: the names of include files that were not found go to the error
stream, and then the diagnostics, if there are any.  Only a run without diagnostics, whose error
lines were all taken, touches the target; the output is echoed afterwards to the output stream,
with a line end.
-/

set_option autoImplicit false

namespace ShaderKit

/-- What a job can see and change. -/
structure World where
  files : FileSystem
  out : Stream := {}
  err : Stream := {}
  deriving DecidableEq, Repr

/-- The two files of a job. -/
inductive JobFile where
  | source
  | target
  deriving DecidableEq, Repr

namespace JobFile

def name : JobFile → String
  | source => "source"
  | target => "target"

end JobFile

/-- Why a job failed. -/
inductive JobError where
  | emptyPath (file : JobFile)
  | sameFile (target : String)
  | malformedDefinition (e : MalformedDefinition)
  | readSource (path : String) (reason : SystemError)
  | compileErrors (count : Nat)
  | openTarget (path : String) (reason : SystemError)
  | writeTarget (path : String) (reason : SystemError)
  | stream (reason : SystemError)
  deriving DecidableEq, Repr

namespace JobError

def message : JobError → String
  | emptyPath file => s!"{file.name} path is empty"
  | sameFile target => s!"source and target are the same file: {target}"
  | malformedDefinition e => e.message
  | readSource path reason => s!"could not read source file {path}: {reason.message}"
  | compileErrors count => s!"preprocessing failed with {count} error(s)"
  | openTarget path reason => s!"could not open {path} for writing: {reason.message}"
  | writeTarget path reason => s!"failed to write {path}: {reason.message}"
  | stream reason => s!"failed to write to an output stream: {reason.message}"

/-- The error of the system behind an error, if there is one. -/
def cause? : JobError → Option SystemError
  | readSource _ reason | openTarget _ reason | writeTarget _ reason | stream reason => some reason
  | _ => none

end JobError

/-- The text of a source file: decoded, and with line ends of one kind. -/
def loadSource (fs : FileSystem) (path : String) : Except JobError String :=
  match fs.read path with
  | .ok data => .ok (String.ofList (Text.normaliseNewlines (Utf8.decode data)))
  | .error reason => .error (.readSource path reason)

/-- A source to be preprocessed, and where the result goes. -/
structure Job where
  source : String
  target : String
  /-- Definitions in the form `NAME=VALUE`. -/
  definitions : List String
  search : SearchPath
  deriving DecidableEq, Repr

namespace Job

/-- Asks for two files that have names and are not the same. -/
def validate (job : Job) (fs : FileSystem) : Except JobError Unit :=
  if job.source.isEmpty then .error (.emptyPath .source)
  else if job.target.isEmpty then .error (.emptyPath .target)
  else if fs.samePlace job.source job.target then .error (.sameFile job.target)
  else .ok ()

/-- What the engine gets to do, or why it gets nothing. -/
def prepare (job : Job) (fs : FileSystem) : Except JobError Source := do
  job.validate fs
  let definitions ← (Definition.parseAll job.definitions).mapError .malformedDefinition
  let text ← loadSource fs job.source
  return { filename := job.source, text, definitions }

/-- Writes the target. -/
def writeTarget (job : Job) (fs : FileSystem) (output : List UInt8) :
    Except JobError Unit × FileSystem :=
  match fs.openForWriting job.target with
  | .error reason => (.error (.openTarget job.target reason), fs)
  | .ok (place, opened) =>
    match opened.writeTo place output with
    | .error reason => (.error (.writeTarget job.target reason), opened)
    | .ok written => (.ok (), written)

/-- The file name of diagnostics that have none. -/
def unknownFile : String := "unknown"

/-- Reports how an engine ended. -/
def deliver (job : Job) (outcome : Outcome) (w : World) : Except JobError Unit × World :=
  match outcome with
  | .failure diagnostics =>
    let (result, err) := w.err.writeLines (diagnostics.map (·.render unknownFile))
    (match result with
      | .error reason => .error (.stream reason)
      | .ok () => .error (.compileErrors diagnostics.length),
      { w with err })
  | .success output =>
    match job.writeTarget w.files output with
    | (.error e, files) => (.error e, { w with files })
    | (.ok (), files) =>
      let (result, out) := w.out.write (output ++ Utf8.encode ['\n'])
      (result.mapError .stream, { w with files, out })

/-- The lines about the include files that were not found. -/
def unresolvedLines (books : Include.Books) : List String :=
  books.unresolved.map fun name => s!"Could not open {name}"

/-- What is left to do once the engine has come back. -/
def conclude (job : Job) (answer : Outcome × Include.Books) (w : World) :
    Except JobError Unit × World :=
  let (outcome, books) := answer
  let (result, err) := w.err.writeLines (unresolvedLines books)
  match result with
  | .error reason => (.error (.stream reason), { w with err })
  | .ok () => job.deliver outcome { w with err }

/-- Runs a job, where `call` calls the engine. -/
def runWith {m : Type → Type} [Monad m] (job : Job) (call : Source → m (Outcome × Include.Books))
    (w : World) : m (Except JobError Unit × World) :=
  match job.prepare w.files with
  | .error e => return (.error e, w)
  | .ok source => return job.conclude (← call source) w

/-- What an engine answers about a source, and the books that were kept meanwhile. -/
def consult (job : Job) (engine : Engine) (fs : FileSystem) (source : Source) :
    Outcome × Include.Books :=
  engine.preprocess (Include.searchHandler fs job.search) source {}

/-- Runs a job. -/
def run (job : Job) (engine : Engine) (w : World) : Except JobError Unit × World :=
  Id.run (job.runWith (fun source => pure (job.consult engine w.files source)) w)

end Job
end ShaderKit
