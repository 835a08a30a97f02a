import ShaderKit.Text.Blank

/-!
# Paths

A path is a string; slashes separate the names in it, and one at the start makes it begin at the
root instead of the current directory.  Empty pieces, from slashes in a row or at the end, mean
nothing.

Three operations look at a path without looking at any file: `join` puts a name behind a
directory, `pieces` are the steps a path takes, and `normalForm` is what two spellings of a path
have in common.  The normal form leaves out the steps that stay where they are, but not one at the
very beginning, and it keeps every step up.
-/

set_option autoImplicit false

namespace ShaderKit
namespace Path

/-- Whether a path begins at the root. -/
def isAbsolute (path : String) : Bool := path.toList.head? = some '/'

/-- Whether a path ends in a slash. -/
def endsInSlash (path : String) : Bool := path.toList.getLast? = some '/'

/-- The path of a name in a directory.  A name that begins at the root stays as it is, and so does a
name without a directory. -/
def join (dir name : String) : String :=
  if isAbsolute name || dir.isEmpty then name
  else if endsInSlash dir then dir ++ name
  else dir ++ "/" ++ name

/-- The steps that a path takes. -/
def pieces (path : String) : List String :=
  ((Text.splitOn '/' path.toList).filter (!·.isEmpty)).map String.ofList

/-- What the spellings of a path have in common: whether it begins at the root, and its steps. -/
def normalForm (path : String) : Bool × List String :=
  let steps := pieces path
  let moving := steps.filter (· ≠ ".")
  let staysFirst := !isAbsolute path && steps.head? = some "."
  (isAbsolute path, if staysFirst then "." :: moving else moving)

end Path
end ShaderKit
