/-!
# Profiles

A profile is the name of a family of targets.  The bytecode readers do the same work for each of
them, but refuse a name they have not heard of; names are compared exactly, letter case included.
-/

set_option autoImplicit false

namespace ShaderKit
namespace Profile

/-- The profiles bytecode can be read for. -/
def supported : List String :=
  ["d3d", "bytecode", "glsl", "glsl120", "arb1", "nv2", "nv3", "nv4"]

/-- Whether bytecode can be read for a profile. -/
def isSupported (profile : String) : Bool := supported.contains profile

/-- What is reported for any other profile. -/
def unsupportedMessage (profile : String) : String :=
  s!"Profile '{profile}' is unknown or unsupported"

end Profile
end ShaderKit
