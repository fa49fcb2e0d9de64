import StagedScript.Text.Search

/-!
# Paths

A path is a text whose parts are separated by slashes.  The functions here cut
and join texts and know nothing of files.
-/

namespace StagedScript.Path

/-- The parts of a path with the empty ones and the single dots after the first part left out, and
whether the path starts at the root.  Two paths with the same parts are the same path. -/
def parts (path : String) : Bool × List String :=
  let pieces := Text.splitAt "/" path
  let named := fun piece => piece != "" && piece != "."
  match pieces with
  | "" :: rest => (path != "", rest.filter named)
  | "." :: rest => (false, "." :: rest.filter named)
  | pieces => (false, pieces.filter named)

def same (a b : String) : Bool :=
  parts a == parts b

/-- A path below a directory; a path from the root stays as it is. -/
def join (directory path : String) : String :=
  if Text.startsWith "/" path then path
  else if directory = "" ∨ Text.endsWith "/" directory then directory ++ path
  else directory ++ "/" ++ path

/-- Drops slashes and single dots at the end of a reversed path, but not a slash at its start. -/
def trimReversed : List Char → List Char
  | ['/'] => ['/']
  | '/' :: rest => trimReversed rest
  | '.' :: '/' :: rest => trimReversed ('/' :: rest)
  | cs => cs

/-- The last part of a path and the text before it; nothing for the root and the empty path. -/
def cutLast? (path : String) : Option (String × String) :=
  let reversed := trimReversed path.toList.reverse
  if reversed = [] ∨ reversed = ['/'] then none
  else
    let name := (reversed.takeWhile (· != '/')).reverse
    let before := (reversed.dropWhile (· != '/')).reverse
    some (String.ofList before, String.ofList name)

def parent? (path : String) : Option String :=
  (cutLast? path).map fun (before, _) =>
    String.ofList (trimReversed before.toList.reverse).reverse

/-- The name of a file: the last part, if it is not made of dots only. -/
def fileName? (path : String) : Option String :=
  match cutLast? path with
  | some (_, name) => if name = "." ∨ name = ".." then none else some name
  | none => none

/-- A file name without its extension, and the extension.  A dot at the start belongs to the
name. -/
def splitName (name : String) : String × Option String :=
  let reversed := name.toList.reverse
  let extension := (reversed.takeWhile (· != '.')).reverse
  match reversed.dropWhile (· != '.') with
  | '.' :: stem =>
    if stem.isEmpty then (name, none)
    else (String.ofList stem.reverse, some (String.ofList extension))
  | _ => (name, none)

/-- The name of a file without its extension. -/
def stem? (path : String) : Option String :=
  (fileName? path).map fun name => (splitName name).1

def extension? (path : String) : Option String :=
  (fileName? path).bind fun name => (splitName name).2

def withExtension (path extension : String) : String :=
  match cutLast? path, stem? path with
  | some (before, _), some stem => before ++ stem ++ "." ++ extension
  | _, _ => path

def withFileName (path name : String) : String :=
  let directory := if (fileName? path).isSome then (parent? path).getD path else path
  join directory name

end StagedScript.Path
