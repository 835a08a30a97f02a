import ShaderKit.Definition
import ShaderKit.Diagnostic
import ShaderKit.Include

/-!
# Engines

An engine turns a source text into output bytes or into diagnostics, never into both: a run that
reported anything has no output.  It gets at include files only through the handler it is given,
whatever that handler's state is made of — which is why `Engine` is polymorphic in the state.
-/

set_option autoImplicit false

namespace ShaderKit

/-- How preprocessing ended. -/
inductive Outcome where
  | failure (diagnostics : List Diagnostic)
  | success (output : List UInt8)
  deriving DecidableEq, Repr

namespace Outcome

/-- The outcome of a run that collected both: one diagnostic is enough to discard the output. -/
def ofParts (diagnostics : List Diagnostic) (output : List UInt8) : Outcome :=
  if diagnostics.isEmpty then .success output else .failure diagnostics

def diagnostics : Outcome → List Diagnostic
  | failure ds => ds
  | success _ => []

end Outcome

/-- What an engine is told about the source. -/
structure Source where
  /-- The name that diagnostics give to it. -/
  filename : String
  text : String
  definitions : List Definition
  deriving DecidableEq, Repr

/-- A preprocessor: run on a source, with a handler for its include files and the state that the
handler is in. -/
structure Engine : Type 1 where
  preprocess : {σ : Type} → Include.Handler σ → Source → σ → Outcome × σ

namespace Engine

/-- An engine that this build does not have.  It reads nothing, and reports its absence against
the file at position zero. -/
def unavailable (name : String) : Engine where
  preprocess _ source state :=
    (.failure [⟨some source.filename, 0, s!"{name} backend is not enabled"⟩], state)

end Engine
end ShaderKit
