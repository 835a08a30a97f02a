import ShaderKit.Text.Blank

/-!
# Predefined macros

A macro can be defined from outside a source text, as a string `NAME=VALUE`.  `Definition.parse`
accepts exactly the strings with one equals sign and something on either side of it; it does not
ask whether the name could be written in a source.  `Definition.parseAll` reads a whole list in
order and stops at the first string that is malformed.
-/

set_option autoImplicit false

namespace ShaderKit

/-- A macro without parameters, defined from outside: its name and the text it stands for. -/
structure Definition where
  name : String
  value : String
  deriving DecidableEq, Repr, Inhabited

/-- A string that is not of the form `NAME=VALUE`. -/
structure MalformedDefinition where
  offending : String
  deriving DecidableEq, Repr

namespace MalformedDefinition

def message (e : MalformedDefinition) : String :=
  s!"invalid preprocessor define `{e.offending}` (expected NAME=VALUE)"

end MalformedDefinition

namespace Definition

/-- Reads `NAME=VALUE`. -/
def parse (raw : String) : Except MalformedDefinition Definition :=
  match Text.cutAt? '=' raw.toList with
  | none => .error ⟨raw⟩
  | some (name, value) =>
    if name.isEmpty || value.isEmpty || value.contains '=' then .error ⟨raw⟩
    else .ok ⟨String.ofList name, String.ofList value⟩

/-- Reads every string, in order; the first malformed one is the answer otherwise. -/
def parseAll (raw : List String) : Except MalformedDefinition (List Definition) :=
  raw.mapM parse

end Definition
end ShaderKit
