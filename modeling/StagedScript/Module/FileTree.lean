import StagedScript.Module.Path

/-!
# Files

What a program sees of the files: contents of files and the directories around
them, each under the names that lead to it from the root.
-/

namespace StagedScript

/-- A file with its bytes, or a directory. -/
inductive FileNode
  | file (bytes : ByteArray)
  | directory

/-- The files and directories, and the directory that relative paths start from.  A directory is
also there if something is in it. -/
structure FileTree where
  entries : List (List String × FileNode) := []
  home : List String := []

/-- Why a file cannot be used. -/
inductive FileError
  | notFound
  | notDirectory
  | isDirectory
  | notText
  deriving Repr, DecidableEq

def FileError.message : FileError → String
  | notFound => "No such file or directory (os error 2)"
  | notDirectory => "Not a directory (os error 20)"
  | isDirectory => "Is a directory (os error 21)"
  | notText => "stream did not contain valid UTF-8"

namespace FileTree

/-- What stands at a place. -/
def node? (t : FileTree) (place : List String) : Option FileNode :=
  match t.entries.lookup place with
  | some node => some node
  | none =>
    if place.isEmpty || t.entries.any (fun entry => place.isPrefixOf entry.1) then
      some .directory
    else
      none

def isDirectoryAt (t : FileTree) (place : List String) : Bool :=
  match t.node? place with
  | some .directory => true
  | _ => false

/-- Follows the parts of a path from a place.  Every part but the last has to be a directory. -/
def follow (t : FileTree) (place : List String) : List String → Except FileError (List String)
  | [] => .ok place
  | part :: rest =>
    match t.node? place with
    | none => .error .notFound
    | some (.file _) => .error .notDirectory
    | some .directory =>
      if part = "" ∨ part = "." then t.follow place rest
      else if part = ".." then t.follow place.dropLast rest
      else t.follow (place ++ [part]) rest

/-- The place that a path leads to, which may be empty. -/
def place (t : FileTree) (path : String) : Except FileError (List String) :=
  if path = "" then .error .notFound
  else
    match Text.splitAt "/" path with
    | "" :: rest => t.follow [] rest
    | parts => t.follow t.home parts

def find (t : FileTree) (path : String) : Except FileError (List String × FileNode) := do
  let place ← t.place path
  match t.node? place with
  | some node => return (place, node)
  | none => throw .notFound

def isFile (t : FileTree) (path : String) : Bool :=
  match t.find path with
  | .ok (_, .file _) => true
  | _ => false

def isDirectory (t : FileTree) (path : String) : Bool :=
  match t.find path with
  | .ok (_, .directory) => true
  | _ => false

/-- The text of a file. -/
def read (t : FileTree) (path : String) : Except FileError String := do
  match ← t.find path with
  | (_, .directory) => throw .isDirectory
  | (_, .file bytes) =>
    match String.fromUTF8? bytes with
    | some text => return text
    | none => throw .notText

/-- The path from the root that leads to the same place without detours. -/
def canonical? (t : FileTree) (path : String) : Option String :=
  match t.find path with
  | .ok (place, _) => some ("/" ++ "/".intercalate place)
  | .error _ => none

def putAt (t : FileTree) (place : List String) (node : FileNode) : FileTree :=
  { t with entries := (place, node) :: t.entries.filter (·.1 != place) }

/-- Drops the slashes at the end of a reversed path, but not its first character. -/
def dropSlashes : List Char → List Char
  | '/' :: c :: rest => dropSlashes (c :: rest)
  | cs => cs

/-- Writes a file.  Its directory has to be there, and a slash at the end is only for
directories. -/
def write (t : FileTree) (path text : String) : Except FileError FileTree := do
  let place ← t.place (String.ofList (dropSlashes path.toList.reverse).reverse)
  if place.isEmpty ∨ Text.endsWith "/" path ∨ t.isDirectoryAt place then throw .isDirectory
  return t.putAt place (.file text.toUTF8)

/-- The files that an earlier tree does not have with the same bytes. -/
def changedSince (t earlier : FileTree) : List (List String × ByteArray) :=
  t.entries.filterMap fun (place, node) =>
    match node, earlier.node? place with
    | .directory, _ => none
    | .file bytes, some (.file old) => if bytes.data = old.data then none else some (place, bytes)
    | .file bytes, _ => some (place, bytes)

end FileTree

end StagedScript
