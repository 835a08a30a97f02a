import ShaderKit.FileSystem.Path

/-!
# Files and directories

A file system without links: a list of places, each with what is there, and a current directory.  A
place is the list of names that leads to it, innermost first, so that the directory around it is its
tail; the root is the empty list, and is a directory without being listed.

A path is looked up step by step, as far as there are directories (`walk`).  All errors come out of
this, with the texts the operating system has for them, and the earliest step that cannot be taken
decides which one.  `read` reads, `openForWriting` makes a file empty or creates it, and `writeTo`
fills it.

There is one device besides: a file that is always full.  It can be opened, but takes no bytes; and
since nothing can be settled on a device, not even writing nothing to it succeeds.
-/

set_option autoImplicit false

namespace ShaderKit

/-- Why the system refuses. -/
inductive SystemError where
  | notFound
  | notADirectory
  | isADirectory
  | nameTooLong
  | noSpace
  | invalidArgument
  /-- A zero character in a path. -/
  | zeroInPath
  /-- A stream that takes no more bytes. -/
  | streamClosed
  deriving DecidableEq, Repr

namespace SystemError

def message : SystemError → String
  | notFound => "No such file or directory (os error 2)"
  | notADirectory => "Not a directory (os error 20)"
  | isADirectory => "Is a directory (os error 21)"
  | nameTooLong => "File name too long (os error 36)"
  | noSpace => "No space left on device (os error 28)"
  | invalidArgument => "Invalid argument (os error 22)"
  | zeroInPath => "file name contained an unexpected NUL byte"
  | streamClosed => "stream closed"

end SystemError

/-- A place: the names that lead to it from the root, innermost first. -/
abbrev Place := List String

/-- What can be at a place. -/
inductive Node where
  | file (data : List UInt8)
  | directory
  /-- The device that is always full. -/
  | fullDevice
  deriving DecidableEq, Repr

/-- A file system, and the directory that paths begin at. -/
structure FileSystem where
  nodes : List (Place × Node)
  current : Place
  deriving DecidableEq, Repr

namespace FileSystem

/-- What is at a place. -/
def node? (fs : FileSystem) (place : Place) : Option Node :=
  if place.isEmpty then some .directory else fs.nodes.lookup place

def isDirectory (fs : FileSystem) (place : Place) : Bool := fs.node? place = some .directory

/-- The file system with something put at a place. -/
def set (fs : FileSystem) (place : Place) (node : Node) : FileSystem :=
  { fs with nodes := (place, node) :: fs.nodes.filter (·.1 ≠ place) }

/-- The file system without what is at a place. -/
def clear (fs : FileSystem) (place : Place) : FileSystem :=
  { fs with nodes := fs.nodes.filter (·.1 ≠ place) }

/-! ## Looking up -/

/-- The greatest number of bytes in a name. -/
def maxNameSize : Nat := 255

/-- The number of bytes from which on a path is too long. -/
def pathSizeLimit : Nat := 4096

/-- Refuses the paths that do not spell anything. -/
def checkSpelling (path : String) : Except SystemError Unit :=
  if path.toList.contains '\x00' then .error .zeroInPath
  else if path.isEmpty then .error .notFound
  else .ok ()

/-- Refuses the paths that are not even looked at. -/
def checkPath (path : String) : Except SystemError Unit := do
  checkSpelling path
  if pathSizeLimit ≤ path.utf8ByteSize then throw .nameTooLong

/-- Takes one step from a place. -/
def enter (fs : FileSystem) (place : Place) (name : String) : Except SystemError Place :=
  if !fs.isDirectory place then .error .notADirectory
  else if name = "." then .ok place
  else if name = ".." then .ok place.tail
  else if maxNameSize < name.utf8ByteSize then .error .nameTooLong
  else if (fs.node? (name :: place)).isNone then .error .notFound
  else .ok (name :: place)

/-- Takes steps from a place. -/
def walk (fs : FileSystem) (place : Place) (steps : List String) : Except SystemError Place :=
  steps.foldlM fs.enter place

/-- The place that a path begins at. -/
def start (fs : FileSystem) (path : String) : Place :=
  if Path.isAbsolute path then [] else fs.current

/-- The place that a path has led to, if it may end there: a slash at the end asks for a
directory. -/
def settle (fs : FileSystem) (path : String) (place : Place) : Except SystemError Place :=
  if Path.endsInSlash path && !fs.isDirectory place then .error .notADirectory else .ok place

/-- The place that a path leads to. -/
def locate (fs : FileSystem) (path : String) : Except SystemError Place := do
  checkPath path
  fs.settle path (← fs.walk (fs.start path) (Path.pieces path))

/-! ## Reading -/

/-- The bytes of the regular file that a path leads to, if it leads to one. -/
def regularFile? (fs : FileSystem) (path : String) : Option (List UInt8) :=
  match fs.locate path with
  | .ok place =>
    match fs.node? place with
    | some (.file data) => some data
    | _ => none
  | .error _ => none

/-- The bytes that can be read at a path.  A directory can be opened, but not read; the device has
nothing to read. -/
def read (fs : FileSystem) (path : String) : Except SystemError (List UInt8) := do
  match fs.node? (← fs.locate path) with
  | some (.file data) => return data
  | some .directory => throw .isADirectory
  | some .fullDevice => return []
  | none => throw .notFound

/-! ## Writing -/

/-- The place that a file is created at: every step but the last has to lead somewhere, and the last
has to be a name. -/
def placeToWrite (fs : FileSystem) (path : String) : Except SystemError Place := do
  checkPath path
  let steps := Path.pieces path
  match steps.getLast? with
  | none => throw .isADirectory
  | some name =>
    let dir ← fs.walk (fs.start path) steps.dropLast
    if !fs.isDirectory dir then throw .notADirectory
    if name = "." || name = ".." || Path.endsInSlash path then throw .isADirectory
    if maxNameSize < name.utf8ByteSize then throw .nameTooLong
    if fs.isDirectory (name :: dir) then throw .isADirectory
    return name :: dir

/-- Opens a file for writing: the place it is at, and the file system with the file empty. -/
def openForWriting (fs : FileSystem) (path : String) : Except SystemError (Place × FileSystem) := do
  let place ← fs.placeToWrite path
  if fs.node? place = some .fullDevice then return (place, fs)
  return (place, fs.set place (.file []))

/-- Writes to a file that was opened for writing. -/
def writeTo (fs : FileSystem) (place : Place) (data : List UInt8) :
    Except SystemError FileSystem :=
  if fs.node? place = some .fullDevice then
    .error (if data.isEmpty then .invalidArgument else .noSpace)
  else .ok (fs.set place (.file data))

/-- Takes one step from a place, and makes a directory if there is nothing. -/
def enterNew (state : Place × FileSystem) (name : String) :
    Except SystemError (Place × FileSystem) :=
  let (place, fs) := state
  match fs.enter place name with
  | .ok next => .ok (next, fs)
  | .error .notFound => .ok (name :: place, fs.set (name :: place) .directory)
  | .error e => .error e

/-- The file system with a directory at a path, and directories all the way there; as it was, where
that is not possible. -/
def makeDirectories (fs : FileSystem) (path : String) : FileSystem :=
  match (Path.pieces path).foldlM enterNew (fs.start path, fs) with
  | .ok (_, fs') => fs'
  | .error _ => fs

/-- The path of the directory around a path. -/
def parentPath (path : String) : String :=
  (if Path.isAbsolute path then "/" else "") ++ String.intercalate "/" (Path.pieces path).dropLast

/-- The file system with a file at a path, and directories all the way there; as it was, where that
is not possible. -/
def putFile (fs : FileSystem) (path : String) (data : List UInt8) : FileSystem :=
  let fs := fs.makeDirectories (parentPath path)
  match fs.openForWriting path with
  | .ok (place, fs) => (fs.writeTo place data).toOption.getD fs
  | .error _ => fs

/-- The file system without the file at a path; directories stay. -/
def removeFile (fs : FileSystem) (path : String) : FileSystem :=
  match fs.locate path with
  | .ok place => if fs.isDirectory place then fs else fs.clear place
  | .error _ => fs

end FileSystem
end ShaderKit
