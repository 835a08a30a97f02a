import ShaderKit.Engine
import ShaderKit.Preprocess.Comment
import ShaderKit.Preprocess.Group
import ShaderKit.Preprocess.LogicalLine
import ShaderKit.Text.Utf8

/-!
# Preprocessing a file, and the files it includes

A `Session` is what all files of a run share: the macros, the lines put out, the diagnostics, and
the state of whoever opens include files.  Conditional groups and block comments belong to one file,
so they are kept apart from it, in a `FileState`.

`runFile` takes a file line by line.  Its recursion is on the number of includes that may still be
nested, so it ends with every handler — also with one that serves a file which includes itself.
The functions below it do not recurse: what an `#include` line has to run is handed to them, as an
optional function that is missing at the innermost level.

A line that is at fault is reported, and changes nothing else but, possibly, the groups and the
state of the handler.
-/

set_option autoImplicit false

namespace ShaderKit
namespace Preprocess

variable {σ : Type}

/-- What the files of a run have in common. -/
structure Session (σ : Type) where
  macros : MacroTable
  output : Array (List Char)
  diagnostics : Array Diagnostic
  handler : σ

namespace Session

/-- Puts out a line. -/
def emit (s : Session σ) (line : List Char) : Session σ :=
  { s with output := s.output.push line }

/-- Reports a fault, if there is one, at a line of a file. -/
def report (s : Session σ) (file : String) (line : Nat) : Option Fault → Session σ
  | none => s
  | some fault =>
    { s with
      diagnostics := s.diagnostics.push (.ofPosition (some file) line fault.message) }

/-- The text put out, each line ended. -/
def text (s : Session σ) : List Char := s.output.toList.flatMap (· ++ ['\n'])

end Session

/-- The session after an attempt, which leaves it alone if it fails. -/
def attempt (s : Session σ) : Except Fault (Session σ) → Session σ × Option Fault
  | .ok s' => (s', none)
  | .error fault => (s, some fault)

/-- How a file is run inside a session: its name, its text, and the session before it. -/
abbrev FileRunner (σ : Type) := String → List Char → Session σ → Session σ

/-! ## Single lines -/

/-- The session after an `#include` line of a file.  The file is closed as soon as its text has been
taken, before anything in the text is looked at. -/
def runInclude (h : Include.Handler σ) (nested : Option (FileRunner σ)) (file : String)
    (arguments : List Char) (s : Session σ) : Session σ × Option Fault :=
  match includeTarget s.macros arguments with
  | .error fault => (s, some fault)
  | .ok (kind, name) =>
    match nested with
    | none => (s, some .includeTooDeep)
    | some run =>
      let filename := String.ofList name
      match h.acquire s.handler ⟨kind, filename, some file⟩ with
      | (.error failure, handler) => ({ s with handler }, some (.includeFailed name failure))
      | (.ok handle, handler) =>
        let text := Text.normaliseNewlines (Utf8.decode handle.data)
        (run filename text { s with handler := h.release handler handle }, none)

/-- The session after a directive of a file that is not conditional. -/
def runAction (h : Include.Handler σ) (nested : Option (FileRunner σ)) (file : String)
    (a : Action) (s : Session σ) : Session σ × Option Fault :=
  match a with
  | .nothing => (s, none)
  | .define arguments => attempt s do
    let (name, m) ← definition arguments
    match s.macros.define? name m with
    | some macros => return { s with macros }
    | none => throw (.alreadyDefined name)
  | .undefine arguments => attempt s do
    let name ← macroName "undef" arguments
    return { s with macros := s.macros.erase name }
  | .include arguments => runInclude h nested file arguments s
  | .error text => (s, some (.errorDirective text))
  | .pragma line => (s.emit line, none)
  | .unknown name => (s, some (.unknownDirective name))

/-- The session after a line of text. -/
def runText (line : List Char) (s : Session σ) : Session σ × Option Fault :=
  match expand s.macros (tokenize line) with
  | .ok ts => (s.emit (spelling ts), none)
  | .error e => (s, some (.expansion e))

/-! ## Files -/

/-- Where the reading of a file stands: the groups that are open, innermost first, whether a block
comment is, and the session so far. -/
structure FileState (σ : Type) where
  groups : List Group
  inBlock : Bool
  session : Session σ

/-- The state after a line without its comments. -/
def runStripped (h : Include.Handler σ) (nested : Option (FileRunner σ)) (file : String)
    (number : Nat) (line : Line) : FileState σ → FileState σ
  | ⟨groups, inBlock, session⟩ =>
    match line with
    | .conditional c =>
      let (groups, fault) := Group.apply session.macros c groups
      ⟨groups, inBlock, session.report file number fault⟩
    | .action a =>
      if Group.keeps groups then
        let (session, fault) := runAction h nested file a session
        ⟨groups, inBlock, session.report file number fault⟩
      else ⟨groups, inBlock, session⟩
    | .text line =>
      if Group.keeps groups then
        let (session, fault) := runText line session
        ⟨groups, inBlock, session.report file number fault⟩
      else ⟨groups, inBlock, session⟩

/-- The state after a logical line. -/
def runLine (h : Include.Handler σ) (nested : Option (FileRunner σ)) (file : String)
    (st : FileState σ) (line : LogicalLine) : FileState σ :=
  let (stripped, inBlock) := stripComments st.inBlock line.text
  runStripped h nested file line.number (Line.classify stripped) { st with inBlock }

/-- The session at the end of a file: what is still open is reported at the last line. -/
def finish (file : String) (last : Nat) (st : FileState σ) : Session σ :=
  (st.session.report file last (if st.inBlock then some .unterminatedComment else none)).report
    file last (if st.groups.isEmpty then none else some .unterminatedIf)

/-- The session after a file, when `nested` runs the files that it includes. -/
def runLines (h : Include.Handler σ) (nested : Option (FileRunner σ)) : FileRunner σ :=
  fun file text s =>
    finish file (lastLine text)
      ((LogicalLine.ofText text).foldl (runLine h nested file)
        { groups := [], inBlock := false, session := s })

/-- The session after a file whose includes may be nested as deeply as the number says. -/
def runFile (h : Include.Handler σ) : Nat → FileRunner σ
  | 0 => runLines h none
  | depth + 1 => runLines h (some (runFile h depth))

/-- The macros that a run starts with; of two definitions of a name the later one counts. -/
def predefine (definitions : List Definition) : MacroTable :=
  definitions.foldl (fun table d => table.insert d.name.toList (.object d.value.toList)) {}

/-- The session at the end of a run. -/
def runSource (h : Include.Handler σ) (maxDepth : Nat) (source : Source) (handler : σ) :
    Session σ :=
  runFile h maxDepth source.filename source.text.toList
    { macros := predefine source.definitions, output := #[], diagnostics := #[], handler }

/-- How deep includes may be nested unless something else is asked for. -/
def defaultMaxDepth : Nat := 32

/-- The preprocessor of this library. -/
def engine (maxDepth : Nat) : Engine where
  preprocess h source handler :=
    let s := runSource h maxDepth source handler
    (.ofParts s.diagnostics.toList (Utf8.encode s.text), s.handler)

end Preprocess
end ShaderKit
