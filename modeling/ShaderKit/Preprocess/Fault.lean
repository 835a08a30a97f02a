import ShaderKit.Include
import ShaderKit.Preprocess.Condition
import ShaderKit.Preprocess.Expansion

/-!
# What can be wrong with a line

Every fault that preprocessing can report, as its cause, and the one function that words it.  A line
has at most one fault; the last two belong to the end of a file.
-/

set_option autoImplicit false

namespace ShaderKit
namespace Preprocess

/-- A fault of a line, or of the end of a file. -/
inductive Fault where
  /-- A macro call in the line, in a condition or in an include name cannot be expanded. -/
  | expansion (e : ExpansionError)
  | condition (e : ConditionError)
  /-- No name after `defined`. -/
  | definedNeedsName
  /-- The parenthesis after `defined` is not closed behind the name. -/
  | definedNotClosed
  /-- No name after a directive that needs one. -/
  | nameMissing (directive : String)
  | elifWithoutIf
  | elifAfterElse
  | elseWithoutIf
  | elseAfterElse
  | endifWithoutIf
  | notAMacroName
  /-- The name `defined` is taken. -/
  | definedAsMacroName
  | parametersNotClosed
  | invalidParameter (text : List Char)
  | alreadyDefined (name : List Char)
  /-- What follows `#include` is no file name, and does not expand to one. -/
  | notAFileName
  | includeTooDeep
  | includeFailed (name : List Char) (failure : Include.Failure)
  /-- An `#error` line, with its text. -/
  | errorDirective (text : List Char)
  | unknownDirective (name : List Char)
  | unterminatedComment
  | unterminatedIf
  deriving DecidableEq, Repr

namespace Fault

def message : Fault → String
  | expansion e => e.message
  | condition e => e.message
  | definedNeedsName => "Operator 'defined' requires an identifier"
  | definedNotClosed => "Missing ')' after 'defined'"
  | nameMissing directive => s!"#{directive} requires a macro name"
  | elifWithoutIf => "#elif without #if"
  | elifAfterElse => "#elif after #else"
  | elseWithoutIf => "#else without #if"
  | elseAfterElse => "#else after #else"
  | endifWithoutIf => "#endif without #if"
  | notAMacroName => "Macro names must be identifiers"
  | definedAsMacroName => "'defined' cannot be used as a macro name"
  | parametersNotClosed => "Missing ')' in macro parameter list"
  | invalidParameter text => s!"Invalid macro parameter '{String.ofList text}'"
  | alreadyDefined name => s!"'{String.ofList name}' already defined"
  | notAFileName => "#include expects \"FILENAME\" or <FILENAME>"
  | includeTooDeep => "#include nested too deeply"
  | includeFailed name failure =>
    s!"Include file '{String.ofList name}' could not be opened: {failure.message}"
  | errorDirective [] => "#error"
  | errorDirective text => s!"#error {String.ofList text}"
  | unknownDirective name => s!"Unknown directive #{String.ofList name}"
  | unterminatedComment => "Unterminated comment"
  | unterminatedIf => "Unterminated #if"

end Fault
end Preprocess
end ShaderKit
