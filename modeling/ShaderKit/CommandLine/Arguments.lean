import ShaderKit.Backend

/-!
# Arguments of the programs

Arguments are read from the left to the right, and the first thing of interest ends the reading: a
request for help, or an error.  Options and operands may come in any order; after `--` there are
only operands.  A single dash is an operand, and so is everything that does not begin with one.

An option with a value takes it from the rest of its own argument or from the next argument.  In the
latter case the next argument must not look like an option.  Of a value that is attached to a short
option, one equals sign in front is left out.
-/

set_option autoImplicit false

namespace ShaderKit
namespace CommandLine

/-- What arguments ask for. -/
inductive Request (α : Type) where
  | help
  | usageError
  | run (options : α)
  deriving DecidableEq, Repr

/-! ## Forms of arguments -/

/-- What an argument looks like. -/
inductive Form where
  | operand (text : String)
  /-- Two dashes: only operands follow. -/
  | endOfOptions
  /-- A long option, and the value behind its equals sign. -/
  | long (name : String) (value : Option String)
  /-- A short option, and what follows its letter. -/
  | short (letter : Char) (rest : List Char)
  deriving DecidableEq, Repr

namespace Form

/-- The form of an argument. -/
def ofArgument (argument : String) : Form :=
  match argument.toList with
  | '-' :: '-' :: [] => endOfOptions
  | '-' :: '-' :: name =>
    match Text.cutAt? '=' name with
    | some (name, value) => long (String.ofList name) (some (String.ofList value))
    | none => long (String.ofList name) none
  | '-' :: letter :: rest => short letter rest
  | _ => operand argument

end Form

/-- The value of an option that takes it from the next argument. -/
def detachedValue? (argument : String) : Option String :=
  match Form.ofArgument argument with
  | .operand text => some text
  | _ => none

/-- The value that is attached to a short option. -/
def attachedValue (rest : List Char) : String :=
  match rest with
  | '=' :: value => String.ofList value
  | value => String.ofList value

/-! ## The preprocessor -/

/-- The options of the preprocessor program. -/
structure PreprocessOptions where
  includes : List String := []
  definitions : List String := []
  backend : Backend := .builtin
  source : String
  target : String
  deriving DecidableEq, Repr

/-- What has been read of the preprocessor's arguments. -/
structure PreprocessState where
  includes : List String := []
  definitions : List String := []
  backend : Option Backend := none
  operands : List String := []
  deriving DecidableEq, Repr

namespace PreprocessState

/-- The options with a value. -/
inductive Key where
  | includeDir
  | definition
  | backend
  deriving DecidableEq, Repr

/-- The option of a letter. -/
def Key.ofLetter? (letter : Char) : Option Key :=
  if letter = 'I' then some .includeDir else if letter = 'D' then some .definition else none

/-- Adds the value of an option.  A directory has a name, and the backend is chosen once at most. -/
def give (s : PreprocessState) (key : Key) (value : String) : Option PreprocessState :=
  match key with
  | .includeDir =>
    if value.isEmpty then none else some { s with includes := s.includes ++ [value] }
  | .definition => some { s with definitions := s.definitions ++ [value] }
  | .backend =>
    match s.backend, Backend.ofName? value with
    | none, some backend => some { s with backend := some backend }
    | _, _ => none

/-- Adds an operand.  There are two of them, and both have names. -/
def operand (s : PreprocessState) (value : String) : Option PreprocessState :=
  if value.isEmpty || s.operands.length = 2 then none
  else some { s with operands := s.operands ++ [value] }

/-- Adds operands. -/
def operandsOnly (s : PreprocessState) (arguments : List String) : Option PreprocessState :=
  arguments.foldlM operand s

/-- What has been asked for at the end of the arguments. -/
def finish : Option PreprocessState → Request PreprocessOptions
  | some s =>
    match s.operands with
    | [source, target] =>
      .run { includes := s.includes, definitions := s.definitions,
             backend := s.backend.getD .builtin, source, target }
    | _ => .usageError
  | none => .usageError

end PreprocessState

open PreprocessState in
/-- Reads the arguments of the preprocessor program. -/
def readPreprocess (s : PreprocessState) : List String → Request PreprocessOptions
  | [] => finish (some s)
  | argument :: arguments =>
    match Form.ofArgument argument with
    | .operand text =>
      match s.operand text with
      | some s => readPreprocess s arguments
      | none => .usageError
    | .endOfOptions => finish (s.operandsOnly arguments)
    | .long name value =>
      if name = "help" && value.isNone then .help
      else if name = "backend" then
        match value, arguments with
        | some value, arguments =>
          match s.give .backend value with
          | some s => readPreprocess s arguments
          | none => .usageError
        | none, next :: arguments =>
          match (detachedValue? next).bind (s.give .backend) with
          | some s => readPreprocess s arguments
          | none => .usageError
        | none, [] => .usageError
      else .usageError
    | .short letter rest =>
      if letter = 'h' then .help
      else
        match Key.ofLetter? letter, rest, arguments with
        | some key, _ :: _, arguments =>
          match s.give key (attachedValue rest) with
          | some s => readPreprocess s arguments
          | none => .usageError
        | some key, [], next :: arguments =>
          match (detachedValue? next).bind (s.give key) with
          | some s => readPreprocess s arguments
          | none => .usageError
        | _, _, _ => .usageError

/-! ## The dump -/

/-- The options of the dump program. -/
structure DumpOptions where
  profile : String
  files : List String
  deriving DecidableEq, Repr

/-- Reads operands only: a profile, which may be any text, and files, which have names. -/
def dumpRequest (operands : List String) : Request DumpOptions :=
  match operands with
  | profile :: file :: files =>
    if (file :: files).any (·.isEmpty) then .usageError else .run ⟨profile, file :: files⟩
  | _ => .usageError

/-- Reads the arguments of the dump program, after some operands. -/
def readDump (operands : List String) : List String → Request DumpOptions
  | [] => dumpRequest operands
  | argument :: arguments =>
    match Form.ofArgument argument with
    | .operand text =>
      if text.isEmpty && !operands.isEmpty then .usageError
      else readDump (operands ++ [text]) arguments
    | .endOfOptions => dumpRequest (operands ++ arguments)
    | .long name value => if name = "help" && value.isNone then .help else .usageError
    | .short letter _ => if letter = 'h' then .help else .usageError

end CommandLine
end ShaderKit
