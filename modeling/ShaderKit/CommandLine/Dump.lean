import ShaderKit.Bytecode.Effect
import ShaderKit.CommandLine.Arguments
import ShaderKit.CommandLine.Ending
import ShaderKit.Job
import ShaderKit.Report

/-!
# The dump program

Writes a report for each of some files.  Every file is treated by itself: its part of the output
hangs on its name, its bytes and the profile, and on no other file (`fileReport`).  Files that
cannot be read, or whose report shows an error, are listed on the error stream at the end, and
make the program fail.

The parts are written one by one, and a file is read when it is its turn.  If the output stream
takes no more, this is the end: what the error stream gets is then one line about the write that
failed, and no list.
-/

set_option autoImplicit false

namespace ShaderKit
namespace CommandLine

/-- The lines that the output begins with. -/
def dumpBanner : String := "shader-testparse 0.1.0\n\n"

/-- The part of the output about a file, given what could be read of it, and whether all is well
with it. -/
def fileReport (profile name : String) (data : Except SystemError (List UInt8)) : String × Bool :=
  match data with
  | .error _ => (s!" ... fopen('{name}') failed.\n", false)
  | .ok bytes =>
    let reflection := Bytecode.read profile bytes
    (Report.renderFile name reflection, reflection.isOk)

/-- What is said if the part about a file cannot be written. -/
def writeMessage (name : String) (data : Except SystemError (List UInt8)) (reason : SystemError) :
    String :=
  match data with
  | .error _ => reason.message
  | .ok _ => s!"failed to write report for {name}: {reason.message}"

/-- Writes the parts about some files, and tells which files are to be listed. -/
def writeReports (profile : String) (fs : FileSystem) :
    List String → Stream → Except String (List String) × Stream
  | [], out => (.ok [], out)
  | name :: files, out =>
    let data := fs.read name
    let (text, isOk) := fileReport profile name data
    match out.write (Utf8.encode text.toList) with
    | (.error reason, out) => (.error (writeMessage name data reason), out)
    | (.ok (), out) =>
      let (result, out) := writeReports profile fs files out
      (result.map fun failed => if isOk then failed else name :: failed, out)

/-- Writes the whole output. -/
def writeDump (o : DumpOptions) (fs : FileSystem) (out : Stream) :
    Except String (List String) × Stream :=
  match out.write (Utf8.encode dumpBanner.toList) with
  | (.error reason, out) => (.error reason.message, out)
  | (.ok (), out) => writeReports o.profile fs o.files out

/-- The lines that the error stream gets. -/
def dumpLines : Except String (List String) → List String
  | .ok failed => failed.map fun name => s!"failed: {name}"
  | .error message => [s!"shader-testparse: {message}"]

/-- Runs the dump program with its options read. -/
def runDump (o : DumpOptions) (w : World) : Ending × World :=
  let (result, out) := writeDump o w.files w.out
  let (_, err) := w.err.writeLines (dumpLines result)
  (match result with
    | .ok [] => .success
    | _ => .failure,
    { w with out, err })

/-- The dump program. -/
def dump (arguments : List String) (w : World) : Ending × World :=
  match readDump [] arguments with
  | .help => (.help, w)
  | .usageError => (.usageError, w)
  | .run o => runDump o w

end CommandLine
end ShaderKit
