import ShaderKit.CommandLine.Arguments
import ShaderKit.CommandLine.Ending
import ShaderKit.Job

/-!
# The preprocessor program

Runs one job from its arguments.  On success the two files are named on the output stream, behind
the output; on failure the error stream gets one line, which tells the error and, behind it, what
the system said.
-/

set_option autoImplicit false

namespace ShaderKit
namespace CommandLine

namespace PreprocessOptions

/-- The job that options describe.  The current directory is always searched first. -/
def job (o : PreprocessOptions) : Job where
  source := o.source
  target := o.target
  definitions := o.definitions
  search := SearchPath.withCurrent o.includes

end PreprocessOptions

/-- What is said about an engine that this build does not have. -/
def unavailableMessage (backend : Backend) : String :=
  s!"{backend.name} backend is not enabled; rebuild with `--features {backend.name}`"

/-- An error, and the error of the system behind it. -/
def fullMessage (e : JobError) : String :=
  match e.cause? with
  | some reason => s!"{e.message}: {reason.message}"
  | none => e.message

/-- Runs the job of some options; an error comes with its whole text. -/
def runJob (o : PreprocessOptions) (w : World) : Except String Unit × World :=
  match o.job.validate w.files with
  | .error e => (.error s!"invalid arguments: {fullMessage e}", w)
  | .ok () =>
    if o.backend.isAvailable then
      let (result, w) := o.job.run (o.backend.engine Preprocess.defaultMaxDepth) w
      (result.mapError fullMessage, w)
    else (.error (unavailableMessage o.backend), w)

/-- Runs the preprocessor program with its options read. -/
def runPreprocess (o : PreprocessOptions) (w : World) : Ending × World :=
  match runJob o w with
  | (.ok (), w) =>
    let (_, out) := w.out.writeLines [s!"Preprocessed {o.source} to {o.target}"]
    (.success, { w with out })
  | (.error message, w) =>
    let (_, err) := w.err.writeLines [s!"Failed to preprocess {o.source}: {message}"]
    (.failure, { w with err })

/-- The preprocessor program. -/
def preprocess (arguments : List String) (w : World) : Ending × World :=
  match readPreprocess {} arguments with
  | .help => (.help, w)
  | .usageError => (.usageError, w)
  | .run o => runPreprocess o w

end CommandLine
end ShaderKit
