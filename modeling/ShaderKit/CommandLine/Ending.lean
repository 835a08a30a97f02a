/-!
# How a program ends

A program that was asked for help, or whose arguments were wrong, has done nothing, and what is
shown then is no business of its own.  Otherwise it ends with success or failure.
-/

set_option autoImplicit false

namespace ShaderKit
namespace CommandLine

/-- How a program ended. -/
inductive Ending where
  | help
  | usageError
  | success
  | failure
  deriving DecidableEq, Repr

namespace Ending

/-- The exit code of a program. -/
def code : Ending → Nat
  | help | success => 0
  | usageError | failure => 1

end Ending
end CommandLine
end ShaderKit
