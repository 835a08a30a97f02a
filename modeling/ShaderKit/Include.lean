/-!
# Including files

A preprocessor does not read files.  It asks for them: a `Request` goes to a `Handler`, which
either hands out a `Handle` — the path it chose and the bytes it found there — or says why it
cannot.  A handle is given back once its bytes are no longer needed, so a handler can keep books
about what is still in use.

A handler is an arbitrary state machine.  Nothing obliges it to answer the same request twice in
the same way, and everything about it that a run can observe is in the state it returns.
-/

set_option autoImplicit false

namespace ShaderKit
namespace Include

/-- The two ways to write the name of an include file. -/
inductive Kind where
  /-- Between quotation marks. -/
  | quoted
  /-- Between angle brackets. -/
  | system
  deriving DecidableEq, Repr

/-- What is asked of a handler: a name, how it was written, and the file that asks. -/
structure Request where
  kind : Kind
  name : String
  parent : Option String
  deriving DecidableEq, Repr

/-- An include file that was found: where, and what it holds. -/
structure Handle where
  path : String
  data : List UInt8
  deriving DecidableEq, Repr

/-- Why an include file could not be opened. -/
inductive Failure where
  | emptyName
  | noSearchPaths
  /-- No directory holds the file; all that were searched are listed. -/
  | notFound (name : String) (searched : List String)
  /-- The file changed its size while it was read. -/
  | shortRead (path : String) (expected actual : Nat)
  /-- The system refused, with a reason of its own. -/
  | unreadable (path reason : String)
  deriving DecidableEq, Repr

namespace Failure

def message : Failure → String
  | emptyName => "include name is empty"
  | noSearchPaths => "no include search paths are configured"
  | notFound name searched => s!"could not find {name} in {searched.length} search path(s)"
  | shortRead path expected actual =>
    s!"short read from {path}: expected {expected} bytes, got {actual}"
  | unreadable path reason => s!"failed to read {path}: {reason}"

end Failure

/-- Whoever answers requests, with a state of type `σ`. -/
structure Handler (σ : Type) where
  acquire : σ → Request → Except Failure Handle × σ
  release : σ → Handle → σ

end Include
end ShaderKit
