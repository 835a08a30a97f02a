import ShaderKit.FileSystem.Tree
import ShaderKit.Include

/-!
# Looking for include files

A `SearchPath` is a list of directories, and the first one that has a regular file of the name
that is asked for wins.  Whatever else is in the way — nothing, a directory, a path that leads
nowhere — is passed over.  How the name was written and who asks for it make no difference.

`Include.searchHandler` answers requests this way, and keeps books: how many handles are out, and
which names could not be found, in the order of the requests.
-/

set_option autoImplicit false

namespace ShaderKit

/-- Directories, the first ones searched first. -/
structure SearchPath where
  directories : List String
  deriving DecidableEq, Repr

namespace SearchPath

/-- The current directory, and then further ones. -/
def withCurrent (directories : List String) : SearchPath := ⟨"." :: directories⟩

end SearchPath

namespace Include

/-- Finds an include file. -/
def resolve (fs : FileSystem) (search : SearchPath) (name : String) : Except Failure Handle :=
  if name.isEmpty then .error .emptyName
  else if search.directories.isEmpty then .error .noSearchPaths
  else
    let found := search.directories.findSome? fun dir =>
      (fs.regularFile? (Path.join dir name)).map fun data => (⟨Path.join dir name, data⟩ : Handle)
    match found with
    | some handle => .ok handle
    | none => .error (.notFound name search.directories)

/-- What is known about the requests so far. -/
structure Books where
  /-- The number of handles that were handed out and have not been given back. -/
  outstanding : Nat := 0
  /-- The names that could not be found, in the order of the requests. -/
  unresolved : List String := []
  deriving DecidableEq, Repr

namespace Books

/-- The books after a request with the given answer. -/
def acquire (books : Books) (request : Request) (answer : Except Failure Handle) : Books :=
  match answer with
  | .ok _ => { books with outstanding := books.outstanding + 1 }
  | .error _ => { books with unresolved := books.unresolved ++ [request.name] }

/-- The books after a handle was given back. -/
def release (books : Books) : Books := { books with outstanding := books.outstanding - 1 }

end Books

/-- The handler that looks for files on a search path. -/
def searchHandler (fs : FileSystem) (search : SearchPath) : Handler Books where
  acquire books request :=
    let answer := resolve fs search request.name
    (answer, books.acquire request answer)
  release books _ := books.release

end Include
end ShaderKit
