import StagedScript.Evaluation.Program
import StagedScript.Staging.Failure

/-!
# Source files

A file with what is needed to run it as a module.  A file whose directory holds
a package file belongs to that package and is run under its full name; any
other file stands alone and looks for modules in its own directory.
-/

namespace StagedScript.Compile

open Evaluation (ModuleSpec)

/-- A source file: its text, its module name, its package and where its imports are looked for. -/
structure SourceFile where
  path : String
  text : String
  name : String
  package : Option String
  searchPaths : List String
  deriving Repr, DecidableEq

namespace SourceFile

/-- How the file runs as a module. -/
def spec (f : SourceFile) : ModuleSpec :=
  { name := f.name, package := f.package, file := some f.path }

/-- How the file runs as the program that was asked for. -/
def mainSpec (f : SourceFile) : ModuleSpec :=
  { f.spec with name := "__main__" }

def directory (path : String) : String :=
  match Path.parent? path with
  | none | some "" => "."
  | some directory => directory

/-- The package that a directory is, and the directory around it. -/
def packageOf? (files : FileTree) (directory : String) : Option (String × String) := do
  if !files.isFile (Path.join directory packageFile) then none
  else
    let place ← files.canonical? directory
    return (← Path.fileName? place, ← Path.parent? place)

/-- Reads a source file.  A standalone file belongs to no package. -/
def read (files : FileTree) (path : String) (standalone : Bool) : Except Failure SourceFile := do
  match files.read path with
  | .error e => throw (.load path e.message)
  | .ok text =>
    match Path.stem? path with
    | none => throw (.load path "file name is not valid UTF-8")
    | some stem =>
      let directory := directory path
      match if standalone then none else packageOf? files directory with
      | some (package, around) =>
        return ⟨path, text, package ++ "." ++ stem, some package, [around]⟩
      | none => return ⟨path, text, stem, none, [directory]⟩

end SourceFile

/-- Where the compiled form of a file goes by default: the name gets a suffix, the extension
stays. -/
def compiledPath (path : String) : String :=
  let stem := (Path.stem? path).getD "output"
  let extension := ((Path.extension? path).map ("." ++ ·)).getD ""
  Path.withFileName path (stem ++ "_compiled" ++ extension)

end StagedScript.Compile
