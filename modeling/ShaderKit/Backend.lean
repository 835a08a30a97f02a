import ShaderKit.Preprocess.Session

/-!
# Choosing an engine

The engines that can be asked for by name.  Only one of them is part of this library; asking for the
other is understood, but it is not there.
-/

set_option autoImplicit false

namespace ShaderKit

/-- The engines that have a name. -/
inductive Backend where
  | builtin
  | shaderc
  deriving DecidableEq, Repr

namespace Backend

def name : Backend → String
  | builtin => "builtin"
  | shaderc => "shaderc"

def ofName? (s : String) : Option Backend := [builtin, shaderc].find? (·.name = s)

/-- Whether this build has the engine. -/
def isAvailable : Backend → Bool
  | builtin => true
  | shaderc => false

/-- The engine, with a limit on how deep includes may be nested. -/
def engine (maxDepth : Nat) : Backend → Engine
  | builtin => Preprocess.engine maxDepth
  | shaderc => Engine.unavailable shaderc.name

end Backend
end ShaderKit
