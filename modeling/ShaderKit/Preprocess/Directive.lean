import ShaderKit.Preprocess.Fault
import ShaderKit.Preprocess.Line

/-!
# Reading directives

What stands behind the name of a directive: a macro name, a condition, a definition, the name of a
file.  Each reader is a function of that text and, at most, of the macros defined so far.

* `macroName` takes the first word and asks that it be an identifier.
* `condition` answers every `defined` first, then expands, then evaluates — so the name after a
  `defined` is never expanded itself.
* `definition` separates the name, the parameters and the body.
* `includeTarget` is the file name as written; if nothing of the kind is written, the text is
  expanded and read once more.
-/

set_option autoImplicit false

namespace ShaderKit
namespace Preprocess

/-- The macro name that a directive is given. -/
def macroName (directive : String) (arguments : List Char) : Except Fault (List Char) :=
  let name := Text.firstWord arguments
  if isWord name then .ok name else .error (.nameMissing directive)

/-! ## Conditions -/

/-- The token that a use of `defined` becomes. -/
def definedness (table : MacroTable) (name : List Char) : Token :=
  { kind := .number, text := if table.isDefined name then ['1'] else ['0'] }

/-- A single blank between two tokens. -/
def blankToken : Token := { kind := .space, text := [' '] }

/-- Answers every `defined X` and `defined(X)`.  There are no blank tokens in what is read, and one
after each token of what is returned. -/
def answerDefined (table : MacroTable) : List Token → Except Fault (List Token)
  | [] => .ok []
  | t :: ts =>
    if t.isIdentifier "defined" then
      match ts with
      | [] => .error .definedNeedsName
      | u :: us =>
        if u.isPunctuator "(" then
          match us with
          | [] => .error .definedNeedsName
          | [name] =>
            .error (if name.kind = .identifier then .definedNotClosed else .definedNeedsName)
          | name :: close :: rest =>
            if name.kind = .identifier then
              if close.isPunctuator ")" then
                return definedness table name.text :: blankToken :: (← answerDefined table rest)
              else .error .definedNotClosed
            else .error .definedNeedsName
        else if u.kind = .identifier then
          return definedness table u.text :: blankToken :: (← answerDefined table us)
        else .error .definedNeedsName
    else return t :: blankToken :: (← answerDefined table ts)

/-- Whether the condition of an `#if` or `#elif` holds. -/
def condition (table : MacroTable) (arguments : List Char) : Except Fault Bool := do
  let ts ← answerDefined table ((tokenize arguments).filter fun t => !t.isSpace)
  let ts ← (expand table ts).mapError .expansion
  let value ← (evaluate ts).mapError .condition
  return value ≠ 0

/-- Whether the condition of the directive that opens a group holds. -/
def openingHolds (table : MacroTable) (opening : Opening) (arguments : List Char) :
    Except Fault Bool :=
  match opening with
  | .condition => condition table arguments
  | .defined => return table.isDefined (← macroName "ifdef" arguments)
  | .undefined => return !table.isDefined (← macroName "ifndef" arguments)

/-! ## Definitions -/

/-- A parameter of a macro, blanks around it aside. -/
def parameter (text : List Char) : Except Fault (List Char) :=
  let name := Text.trim text
  if isWord name then .ok name else .error (.invalidParameter name)

/-- The parameters of a macro, as they stand between the parentheses. -/
def parameterList (text : List Char) : Except Fault (List (List Char)) :=
  if (Text.trim text).isEmpty then .ok [] else (Text.splitOn ',' text).mapM parameter

/-- The name a `#define` defines, and the macro.  The parameter list, if there is one, begins right
behind the name. -/
def definition (arguments : List Char) : Except Fault (List Char × Macro) := do
  let name := arguments.takeWhile isWordChar
  if !isWord name then throw .notAMacroName
  if name = "defined".toList then throw .definedAsMacroName
  match arguments.dropWhile isWordChar with
  | '(' :: rest =>
    match Text.cutAt? ')' rest with
    | none => throw .parametersNotClosed
    | some (parameters, body) => return (name, .function (← parameterList parameters) body)
  | body => return (name, .object body)

/-! ## File names -/

/-- The name of a file in quotation marks or angle brackets; what follows it is not looked at. -/
def includeTarget? (text : List Char) : Option (Include.Kind × List Char) :=
  let read (kind : Include.Kind) (close : Char) (rest : List Char) :=
    match Text.cutAt? close rest with
    | some (c :: name, _) => some (kind, c :: name)
    | _ => none
  match text with
  | '"' :: rest => read .quoted '"' rest
  | '<' :: rest => read .system '>' rest
  | _ => none

/-- The file that an `#include` names, by itself or through macros. -/
def includeTarget (table : MacroTable) (arguments : List Char) :
    Except Fault (Include.Kind × List Char) :=
  match includeTarget? arguments with
  | some target => .ok target
  | none => do
    let ts ← (expand table (tokenize arguments)).mapError .expansion
    match includeTarget? (Text.trim (spelling ts)) with
    | some target => return target
    | none => throw .notAFileName

end Preprocess
end ShaderKit
