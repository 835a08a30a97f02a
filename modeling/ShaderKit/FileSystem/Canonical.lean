import ShaderKit.FileSystem.Tree

/-!
# Canonical places

To find out where a path leads in the end, the system is not given the path.  It is asked about each
place on the way, by the full path of that place.  So the path itself may be as long as it likes —
only the places it leads through must not lie too deep — while a path that is opened is refused for
its own length, wherever it leads.

`canonicalPlace` finds the place, and `samePlace` tells by it whether two paths are the same file.
-/

set_option autoImplicit false

namespace ShaderKit
namespace FileSystem

/-- The number of bytes in the full path of a place. -/
def fullPathSize : Place → Nat
  | [] => 0
  | name :: dir => fullPathSize dir + 1 + name.utf8ByteSize

/-- Takes one step from a place, to a place with a full path that is not too long. -/
def enterInFull (fs : FileSystem) (place : Place) (name : String) : Except SystemError Place := do
  let next ← fs.enter place name
  if pathSizeLimit ≤ fullPathSize next then throw .nameTooLong
  return next

/-- The place that a path leads to in the end, however long the path is. -/
def canonicalPlace (fs : FileSystem) (path : String) : Except SystemError Place := do
  checkSpelling path
  fs.settle path (← (Path.pieces path).foldlM fs.enterInFull (fs.start path))

/-- Whether two paths are the same file: spelled alike, or leading to the same place in the end. -/
def samePlace (fs : FileSystem) (p q : String) : Bool :=
  Path.normalForm p = Path.normalForm q ||
    match fs.canonicalPlace p, fs.canonicalPlace q with
    | .ok a, .ok b => a = b
    | _, _ => false

end FileSystem
end ShaderKit
