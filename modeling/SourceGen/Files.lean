import SourceGen.Text

/-!
# Files

A file system gives the bytes of the file at a path, or says why there are none. In a tree of
files and directories a path names a file by the directories on the way to it. Reading follows
the path name by name from the working directory, so the first obstacle decides the error.
-/
namespace SourceGen

inductive FileError where
  | notFound
  | isADirectory
  | notADirectory
  | invalidInput
  | invalidFilename
  | invalidData
  deriving DecidableEq

inductive FileNode where
  | file (content : ByteArray)
  | directory

/-- What stands at each list of names below the working directory. -/
structure FileTree where
  at? : List Text → Option FileNode

/-- What there is to read at each path. -/
structure FileSystem where
  bytes : Text → Except FileError ByteArray

/-- The place that the front of a path leads to. Above the working directory nothing is known
but directories. -/
inductive Location where
  | file (content : ByteArray)
  | inside (names : List Text)
  | above

def maxNameLength : Nat := 255

def maxPathLength : Nat := 4095

namespace Path

/-- The names of a path. Two slashes in a row have an empty name between them. -/
def split (path : Text) : List Text := path.splitOn '/'

def enter (place : List Text) (name : Text) : List Text :=
  if name = [] ∨ name = ['.'] then place
  else if name = ['.', '.'] then place.dropLast
  else place ++ [name]

/-- The places that names lead through. -/
def waypoints (place : List Text) : List Text → List (List Text)
  | [] => [place]
  | name :: names => place :: waypoints (enter place name) names

def destination (path : Text) : List Text := (split path).foldl enter []

end Path

namespace FileTree

/-- Files with their paths, put there one after the other. Directories on the way to them are
there as well, and a later file takes the place of an earlier one. -/
def ofFiles (files : List (Text × FileNode)) : FileTree where
  at? names :=
    match files.reverse.find? fun (path, _) => Path.destination path = names with
    | some (_, node) => some node
    | none =>
      if files.any fun (path, _) => (Path.waypoints [] (Path.split path)).contains names then
        some .directory
      else none

def follow (tree : FileTree) (location : Location) (name : Text) : Except FileError Location :=
  match location with
  | .file _ => .error .notADirectory
  | .above =>
    if name = [] ∨ name = ['.'] ∨ name = ['.', '.'] then .ok .above
    else if maxNameLength < name.byteLength then .error .invalidFilename
    else .error .notFound
  | .inside names =>
    if name = [] ∨ name = ['.'] then .ok location
    else if name = ['.', '.'] then .ok (if names = [] then .above else .inside names.dropLast)
    else if maxNameLength < name.byteLength then .error .invalidFilename
    else
      match tree.at? (names ++ [name]) with
      | none => .error .notFound
      | some (.file content) => .ok (.file content)
      | some .directory => .ok (.inside (names ++ [name]))

def locate (tree : FileTree) (path : Text) : Except FileError Location :=
  if '\x00' ∈ path then .error .invalidInput
  else if path = [] then .error .notFound
  else if maxPathLength < path.byteLength then .error .invalidFilename
  else (Path.split path).foldlM tree.follow (if path.head? = some '/' then .above else .inside [])

def fileSystem (tree : FileTree) : FileSystem where
  bytes path :=
    match tree.locate path with
    | .error e => .error e
    | .ok (.inside _) | .ok .above => .error .isADirectory
    | .ok (.file content) => .ok content

end FileTree

namespace FileSystem

def ofFiles (files : List (Text × FileNode)) : FileSystem := (FileTree.ofFiles files).fileSystem

/-- The text of a file, which must be UTF-8. -/
def read (fs : FileSystem) (path : Text) : Except FileError Text :=
  match fs.bytes path with
  | .error e => .error e
  | .ok content =>
    match String.fromUTF8? content with
    | some s => .ok s.toList
    | none => .error .invalidData

end FileSystem

end SourceGen
