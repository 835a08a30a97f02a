import ShaderKit.Preprocess.Session

/-!
# A file as a list of lines

Running a file takes comments out and looks at what is left in the same step.  Here the two are
taken apart.  `strippedLines` is the file as the conditional groups see it: every logical line,
without its comments, classified and numbered, and whether a block comment is open behind the last
one.  `runStrippedLines` runs such a list, and `foldl_runLine` says that nothing else happens.

`included` is what an `#include` may run in a file that has so many nestings left, which makes the
two cases of `runFile` one (`runFile_eq_runLines`).

The last section is about lines that include nothing.  What such a line does depends on the groups,
the macros and the output before it only (`exists_runStripped_eq`): the name of the file and the
number of the line say where its fault is reported, and what has been reported before and the
handler are left alone.
-/

set_option autoImplicit false

namespace ShaderKit
namespace Preprocess

variable {σ : Type} (h : Include.Handler σ) (nested : Option (FileRunner σ)) (file : String)

/-! ## Includes at a depth -/

/-- How an included file is run if so many includes may still be nested: not at all if none may. -/
def included : Nat → Option (FileRunner σ)
  | 0 => none
  | depth + 1 => some (runFile h depth)

theorem runFile_eq_runLines (depth : Nat) : runFile h depth = runLines h (included h depth) := by
  cases depth with
  | zero => rfl
  | succ depth => rfl

/-- A handler that has no files. -/
def noFiles : Include.Handler Unit := ⟨fun u _ => (.error .noSearchPaths, u), fun u _ => u⟩

/-! ## Lines without comments -/

/-- A line without its comments, with its number. -/
structure StrippedLine where
  number : Nat
  line : Line
  deriving DecidableEq, Repr

/-- The lines without their comments, and whether a block comment is open after the last.
`inBlock` says whether one was open before the first. -/
def strippedLines (inBlock : Bool) : List LogicalLine → List StrippedLine × Bool
  | [] => ([], inBlock)
  | line :: lines =>
    let (stripped, inBlock) := stripComments inBlock line.text
    let (rest, open?) := strippedLines inBlock lines
    (⟨line.number, Line.classify stripped⟩ :: rest, open?)

/-- The state after some lines without comments. -/
def runStrippedLines (lines : List StrippedLine) (st : FileState σ) : FileState σ :=
  lines.foldl (fun st l => runStripped h nested file l.number l.line st) st

@[simp] theorem runStrippedLines_nil (st : FileState σ) :
    runStrippedLines h nested file [] st = st := rfl

@[simp] theorem runStrippedLines_cons (l : StrippedLine) (lines : List StrippedLine)
    (st : FileState σ) :
    runStrippedLines h nested file (l :: lines) st =
      runStrippedLines h nested file lines (runStripped h nested file l.number l.line st) := rfl

@[simp] theorem runStrippedLines_append (lines more : List StrippedLine) (st : FileState σ) :
    runStrippedLines h nested file (lines ++ more) st =
      runStrippedLines h nested file more (runStrippedLines h nested file lines st) :=
  List.foldl_append

/-- A line without comments neither looks at the block comment nor changes it. -/
theorem runStripped_inBlock (number : Nat) (line : Line) (st : FileState σ) (b : Bool) :
    runStripped h nested file number line { st with inBlock := b } =
      { runStripped h nested file number line st with inBlock := b } := by
  cases line with
  | conditional c => rfl
  | text t =>
    simp only [runStripped]
    split <;> rfl
  | action a =>
    simp only [runStripped]
    split <;> rfl

theorem runStrippedLines_inBlock (lines : List StrippedLine) (st : FileState σ) (b : Bool) :
    runStrippedLines h nested file lines { st with inBlock := b } =
      { runStrippedLines h nested file lines st with inBlock := b } := by
  induction lines generalizing st with
  | nil => rfl
  | cons l lines ih =>
    rw [runStrippedLines_cons, runStrippedLines_cons, runStripped_inBlock, ih]

theorem runLine_eq (st : FileState σ) (line : LogicalLine) :
    runLine h nested file st line =
      { runStripped h nested file line.number
          (Line.classify (stripComments st.inBlock line.text).1) st with
        inBlock := (stripComments st.inBlock line.text).2 } :=
  runStripped_inBlock h nested file line.number _ st _

theorem strippedLines_cons (inBlock : Bool) (line : LogicalLine) (lines : List LogicalLine) :
    strippedLines inBlock (line :: lines) =
      (⟨line.number, Line.classify (stripComments inBlock line.text).1⟩ ::
          (strippedLines (stripComments inBlock line.text).2 lines).1,
        (strippedLines (stripComments inBlock line.text).2 lines).2) := rfl

/-- **Taking comments out comes first.**  The lines of a file can be stripped of their comments
all at once, before any of them is run. -/
theorem foldl_runLine (lines : List LogicalLine) (st : FileState σ) :
    lines.foldl (runLine h nested file) st =
      { runStrippedLines h nested file (strippedLines st.inBlock lines).1 st with
        inBlock := (strippedLines st.inBlock lines).2 } := by
  induction lines generalizing st with
  | nil => rfl
  | cons line lines ih =>
    rw [List.foldl_cons, runLine_eq, ih, runStrippedLines_inBlock, strippedLines_cons,
      runStrippedLines_cons]

/-! ## What a line does -/

/-- What an action does depends neither on the file nor on the handler, and it does not look at what
has been reported. -/
theorem exists_runAction_eq (a : Action) (macros : MacroTable) (output : Array (List Char)) :
    ∃ macros' output' fault, ∀ {τ : Type} (h : Include.Handler τ) file diagnostics handler,
      runAction h none file a ⟨macros, output, diagnostics, handler⟩ =
        (⟨macros', output', diagnostics, handler⟩, fault) := by
  cases a with
  | nothing => exact ⟨macros, output, none, fun _ _ _ _ => rfl⟩
  | define arguments =>
    simp only [runAction]
    cases definition arguments with
    | error fault => exact ⟨macros, output, some fault, fun _ _ _ _ => rfl⟩
    | ok target =>
      simp only [bind, Except.bind]
      cases macros.define? target.1 target.2 with
      | none => exact ⟨macros, output, some (.alreadyDefined target.1), fun _ _ _ _ => rfl⟩
      | some macros' => exact ⟨macros', output, none, fun _ _ _ _ => rfl⟩
  | undefine arguments =>
    simp only [runAction]
    cases macroName "undef" arguments with
    | error fault => exact ⟨macros, output, some fault, fun _ _ _ _ => rfl⟩
    | ok name => exact ⟨macros.erase name, output, none, fun _ _ _ _ => rfl⟩
  | «include» arguments =>
    simp only [runAction, runInclude]
    cases includeTarget macros arguments with
    | error fault => exact ⟨macros, output, some fault, fun _ _ _ _ => rfl⟩
    | ok target => exact ⟨macros, output, some .includeTooDeep, fun _ _ _ _ => rfl⟩
  | error text => exact ⟨macros, output, some (.errorDirective text), fun _ _ _ _ => rfl⟩
  | pragma line => exact ⟨macros, output.push line, none, fun _ _ _ _ => rfl⟩
  | unknown name => exact ⟨macros, output, some (.unknownDirective name), fun _ _ _ _ => rfl⟩

theorem exists_runText_eq (line : List Char) (macros : MacroTable) (output : Array (List Char)) :
    ∃ output' fault, ∀ {τ : Type} diagnostics (handler : τ),
      runText line ⟨macros, output, diagnostics, handler⟩ =
        (⟨macros, output', diagnostics, handler⟩, fault) := by
  simp only [runText]
  cases expand macros (tokenize line) with
  | ok ts => exact ⟨output.push (spelling ts), none, fun _ _ => rfl⟩
  | error e => exact ⟨output, some (.expansion e), fun _ _ => rfl⟩

/-- **What a line does**, where nothing may be included: it may change the groups, the macros and
the output, and it may have a fault. -/
theorem exists_runStripped_eq (line : Line) (groups : List Group) (macros : MacroTable)
    (output : Array (List Char)) :
    ∃ groups' macros' output' fault, ∀ {τ : Type} (h : Include.Handler τ) file number inBlock
        diagnostics handler,
      runStripped h none file number line
          ⟨groups, inBlock, ⟨macros, output, diagnostics, handler⟩⟩ =
        ⟨groups', inBlock,
          (⟨macros', output', diagnostics, handler⟩ : Session τ).report file number fault⟩ := by
  cases line with
  | conditional c =>
    exact ⟨(Group.apply macros c groups).1, macros, output, (Group.apply macros c groups).2,
      fun _ _ _ _ _ _ => rfl⟩
  | action a =>
    simp only [runStripped]
    cases Group.keeps groups with
    | false => exact ⟨groups, macros, output, none, fun _ _ _ _ _ _ => rfl⟩
    | true =>
      obtain ⟨macros', output', fault, hrun⟩ := exists_runAction_eq a macros output
      exact ⟨groups, macros', output', fault, fun _ _ _ _ _ _ => by simp only [hrun, if_true]⟩
  | text line =>
    simp only [runStripped]
    cases Group.keeps groups with
    | false => exact ⟨groups, macros, output, none, fun _ _ _ _ _ _ => rfl⟩
    | true =>
      obtain ⟨output', fault, hrun⟩ := exists_runText_eq line macros output
      exact ⟨groups, macros, output', fault, fun _ _ _ _ _ _ => by simp only [hrun, if_true]⟩

theorem exists_runLine_eq (text : List Char) (groups : List Group) (inBlock : Bool)
    (macros : MacroTable) (output : Array (List Char)) :
    ∃ groups' macros' output' fault, ∀ {τ : Type} (h : Include.Handler τ) file number diagnostics
        handler,
      runLine h none file ⟨groups, inBlock, ⟨macros, output, diagnostics, handler⟩⟩
          ⟨number, text⟩ =
        ⟨groups', (stripComments inBlock text).2,
          (⟨macros', output', diagnostics, handler⟩ : Session τ).report file number fault⟩ := by
  obtain ⟨groups', macros', output', fault, hrun⟩ :=
    exists_runStripped_eq (Line.classify (stripComments inBlock text).1) groups macros output
  exact ⟨groups', macros', output', fault, fun h file number diagnostics handler =>
    hrun h file number _ diagnostics handler⟩

end Preprocess
end ShaderKit
