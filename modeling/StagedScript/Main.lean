import StagedScript.CommandLine.Execution

/-!
# The program

Takes in the files that a command can use, executes it and hands over what it
leaves behind.  All decisions are made by the pure functions of the library.
-/

namespace StagedScript.Program

/-- How deep below a search path modules are looked for. -/
def searchDepth : Nat := 16

/-- The names that lead from the root to a path without detours. -/
def placeOf (path : String) : List String :=
  (Path.parts path).2

/-- What lies in a directory: its source files and, down to a depth, its directories. -/
def directoryEntries (place : List String) (path : String) :
    Nat → IO (List (List String × FileNode))
  | 0 => return [(place, .directory)]
  | depth + 1 => do
    let mut found : List (List String × FileNode) := [(place, .directory)]
    for entry in ← (← IO.FS.realPath path).readDir do
      let inner := place ++ [entry.fileName]
      let name := entry.path.toString
      if ← entry.path.isDir then
        found := (← directoryEntries inner name depth) ++ found
      else if Path.extension? name = some sourceExtension then
        found := (inner, .file (← IO.FS.readBinFile name)) :: found
    return found

def entriesAt (path : String) : IO (List (List String × FileNode)) := do
  try
    let place := (← IO.FS.realPath path).toString
    directoryEntries (placeOf place) place searchDepth
  catch _ => return []

def fileAt (path : String) : IO (List (List String × FileNode)) := do
  try
    return [(placeOf (← IO.FS.realPath path).toString, .file (← IO.FS.readBinFile path))]
  catch _ => return []

/-- What lies around a path: the file, its directory and, if that is a package, the directory
around it. -/
def entriesAround (path : String) : IO (List (List String × FileNode)) := do
  let directory := Compile.SourceFile.directory path
  let package ← fileAt (Path.join directory packageFile)
  let around ← if package.isEmpty then pure [] else entriesAt (Path.join directory "..")
  return (← fileAt path) ++ (← entriesAt directory) ++ around

/-- The files that arguments make use of. -/
def filesFor (args : List String) : IO FileTree := do
  let home := placeOf (← IO.FS.realPath ".").toString
  let paths :=
    match CommandLine.Command.ofArguments args with
    | .ok command => command.paths
    | .error _ => []
  let entries ← paths.mapM entriesAround
  return { entries := (home, .directory) :: entries.flatten, home := home }

end StagedScript.Program

/-- Executes what the arguments ask for. -/
def main (args : List String) : IO UInt32 := do
  let files ← StagedScript.Program.filesFor args
  let outcome := StagedScript.CommandLine.execute files args
  for line in outcome.output do
    IO.println line
  for line in outcome.errors do
    IO.eprintln line
  for (place, bytes) in outcome.files.changedSince files do
    IO.FS.writeBinFile ("/" ++ "/".intercalate place) bytes
  return outcome.code
