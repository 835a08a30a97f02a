import ShaderKit.CommandLine.Dump
import ShaderKit.CommandLine.Preprocess

/-!
# The programs

The command lines are functions on a picture of the disk, so all that is left to do here is to draw
the picture, to call one of them, and to show what it says.

A picture need not have the whole disk in it, only what a run looks at.  The operands of a command
line are known beforehand.  Include files are not, but a run on a picture without them tells which
ones it missed; they are added wherever they may be, and the run is made again, until it misses
nothing that the disk has (`Picture.addIncludes`).
-/

set_option autoImplicit false

namespace ShaderKit

namespace Picture

/-- What the disk has at a place.  Only directories and regular files are of interest. -/
def nodeOnDisk? (place : Place) : IO (Option Node) := do
  let path := "/" ++ String.intercalate "/" place.reverse
  try
    match (← (← IO.FS.realPath path).metadata).type with
    | .dir => return some .directory
    | .file => return some (.file (← IO.FS.readBinFile path).toList)
    | _ => return none
  catch _ => return none

/-- A picture of the current directory and the directories around it. -/
def ofCurrent : IO FileSystem := do
  let current := (Path.pieces (← IO.currentDir).toString).reverse
  return { nodes := (List.range current.length).map fun n => (current.drop n, .directory), current }

/-- Adds everything that a path passes through. -/
def addPath (fs : FileSystem) (path : String) : IO FileSystem := do
  let mut fs := fs
  let mut place := fs.start path
  for step in Path.pieces path do
    place := if step = "." then place else if step = ".." then place.tail else step :: place
    if (fs.node? place).isNone then
      if let some node ← nodeOnDisk? place then fs := fs.set place node
  return fs

/-- Adds everything that some paths pass through. -/
def addPaths (fs : FileSystem) (paths : List String) : IO FileSystem := paths.foldlM addPath fs

/-- The paths at which a run of a job looks for the include files that a picture does not have. -/
def missing (job : Job) (engine : Engine) (fs : FileSystem) : List String :=
  match job.prepare fs with
  | .error _ => []
  | .ok source =>
    let (_, books) := engine.preprocess (Include.searchHandler fs job.search) source {}
    books.unresolved.flatMap fun name => job.search.directories.map (Path.join · name)

/-- Adds the include files of a job. -/
partial def addIncludes (job : Job) (engine : Engine) (fs : FileSystem) : IO FileSystem := do
  let more ← addPaths fs (missing job engine fs)
  if more.nodes.length = fs.nodes.length then return fs else addIncludes job engine more

end Picture

namespace Program

/-- How the programs are called. -/
def helpLines : List String :=
  ["Usage: shaderkit preprocess [-I DIR]... [-D NAME=VALUE]... [--backend NAME] SOURCE TARGET",
   "       shaderkit dump PROFILE FILE...",
   "",
   "preprocess  expands the macros and includes of a source file into a target file",
   "dump        writes the reflection data of compiled shaders and effects"]

def help : String := String.join (helpLines.map (· ++ "\n"))

/-- Puts out bytes, and does not keep them back. -/
def put (stream : IO.FS.Stream) (data : List UInt8) : IO Unit := do
  stream.write ⟨data.toArray⟩
  stream.flush

/-- Shows what a run has written, and ends with its exit code. -/
def conclude (ending : CommandLine.Ending) (w : World) : IO UInt32 := do
  match ending with
  | .help => put (← IO.getStdout) (Utf8.encode help.toList)
  | .usageError => put (← IO.getStderr) (Utf8.encode help.toList)
  | .success | .failure =>
    put (← IO.getStdout) w.out.written
    put (← IO.getStderr) w.err.written
  return ending.code.toUInt32

/-- The preprocessor, on the disk. -/
def preprocess (arguments : List String) : IO UInt32 := do
  let start ← Picture.ofCurrent
  match CommandLine.readPreprocess {} arguments with
  | .run o =>
    let operands ← Picture.addPaths start [o.source, o.target]
    let files ← Picture.addIncludes o.job (o.backend.engine Preprocess.defaultMaxDepth) operands
    let (ending, w) := CommandLine.preprocess arguments { files }
    if let (.success, some data) := (ending, w.files.regularFile? o.target) then
      IO.FS.writeBinFile o.target ⟨data.toArray⟩
    conclude ending w
  | _ =>
    let (ending, w) := CommandLine.preprocess arguments { files := start }
    conclude ending w

/-- The dump, on the disk. -/
def dump (arguments : List String) : IO UInt32 := do
  let start ← Picture.ofCurrent
  let files ← match CommandLine.readDump [] arguments with
    | .run o => Picture.addPaths start o.files
    | _ => pure start
  let (ending, w) := CommandLine.dump arguments { files }
  conclude ending w

end Program
end ShaderKit

open ShaderKit in
/-- The first argument chooses the program. -/
def main (arguments : List String) : IO UInt32 :=
  match arguments with
  | "preprocess" :: arguments => Program.preprocess arguments
  | "dump" :: arguments => Program.dump arguments
  | "--help" :: _ | "-h" :: _ => Program.conclude .help { files := ⟨[], []⟩ }
  | _ => Program.conclude .usageError { files := ⟨[], []⟩ }
