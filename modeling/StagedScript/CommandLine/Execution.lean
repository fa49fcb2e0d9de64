import StagedScript.CommandLine.Command
import StagedScript.CommandLine.Value
import StagedScript.Compile.Compilation
import StagedScript.Compile.OptionsText
import StagedScript.Compile.ResultsText

/-!
# Execution of commands

What a command prints, which files it leaves and with which code it ends.
-/

namespace StagedScript.CommandLine

open Compile (Compilation Options SourceFile)
open Staging (attempt runModule)

/-- What a program leaves behind. -/
structure Outcome where
  /-- The lines for the reader of results. -/
  output : List String := []
  /-- The lines for the reader of errors. -/
  errors : List String := []
  /-- Whether everything went well: zero, one, or two for arguments that ask for nothing. -/
  code : UInt32 := 0
  /-- The files afterwards. -/
  files : FileTree

/-- What is left behind after an error. -/
def Outcome.failed (files : FileTree) (output : List String) (reason : String) : Outcome :=
  { output := output, errors := ["Error: " ++ reason], code := 1, files := files }

/-- The options of a compilation: those of the options file, and what the arguments change. -/
def BuildOptions.resolve (files : FileTree) (o : BuildOptions) : Except String Options := do
  let mut options : Options := {}
  if let some path := o.config then
    match Options.ofFile files path with
    | .ok read => options := read
    | .error failure => throw ("loading config " ++ path ++ ": " ++ failure.message)
  if o.output.isSome then
    options := { options with output := o.output }
  if o.absolute then
    options := { options with absolute := some true }
  if let some name := o.strategy then
    match Rewriting.Strategy.ofName name with
    | .ok strategy => options := { options with strategy := strategy }
    | .error failure => throw failure.message
  if o.noFormat then
    options := { options with format := false }
  return options

def report (c : Compilation) : List String :=
  let counts :=
    s!"  {c.results.length} result(s) precomputed, {c.rewritten.length} function(s) compiled"
  counts :: c.rewritten.map ("  - " ++ ·)

/-- Compiles a file and writes the text. -/
def build (files : FileTree) (input : String) (flags : BuildOptions) : Outcome :=
  match flags.resolve files with
  | .error reason => .failed files [] reason
  | .ok options =>
    let (outcome, printed) := Compile.compileFile files options input
    let begun := ("Compiling: " ++ input) :: printed
    match outcome with
    | .error failure => .failed files begun ("compiling " ++ input ++ ": " ++ failure.message)
    | .ok (c, written) =>
      let results := if flags.emitResults then [Compile.resultsText c.results] else []
      { output := begun ++ report c ++ results ++ ["Output: " ++ c.destination], files := written }

/-- Compiles a file without writing the text. -/
def check (files : FileTree) (input : String) (strategy : Option String) : Outcome :=
  match ({ strategy := strategy } : BuildOptions).resolve files with
  | .error reason => .failed files [] reason
  | .ok options =>
    let (outcome, printed) := Compile.compile files options input
    let begun := ("Checking: " ++ input) :: printed
    match outcome with
    | .error failure => .failed files begun ("checking " ++ input ++ ": " ++ failure.message)
    | .ok c => { output := begun ++ report c ++ ["No errors found"], files := files }

/-- Runs a file as a program and calls one of its functions if asked for. -/
def run (files : FileTree) (input : String) (call : Option String) (args : List String) :
    Outcome :=
  match SourceFile.read files input false with
  | .error failure => .failed files [] failure.message
  | .ok source =>
    let (result, machine) :=
      attempt (runModule source.mainSpec source.text) (.ofPaths files source.searchPaths)
    let printed := machine.output.toList
    match result, call with
    | .error failure, _ => .failed files printed ("running " ++ input ++ ": " ++ failure.message)
    | .ok _, none => { output := printed, files := files }
    | .ok loaded, some name =>
      match (machine.heap.frame loaded.globals).get? name with
      | none => .failed files printed (input ++ " has no attribute '" ++ name ++ "'")
      | some function =>
        let (result, machine) := attempt (callWith function args) machine
        let printed := machine.output.toList
        match result with
        | .ok repr => { output := printed ++ [repr], files := files }
        | .error failure => .failed files printed failure.message

/-- Executes a command. -/
def Command.execute (files : FileTree) : Command → Outcome
  | .build input options => CommandLine.build files input options
  | .check input strategy => CommandLine.check files input strategy
  | .run input call args => CommandLine.run files input call args
  | .version =>
    { output := ["comptime 0.1.0", "Aether Comptime", "License: Apache-2.0"], files := files }
  | .missing =>
    { errors := ["Error: No input file specified",
        "Usage: comptime <FILE> or comptime build <FILE>"]
      code := 1, files := files }

def usage : List String := [
  "Usage: comptime [OPTIONS] [FILE]",
  "       comptime build [OPTIONS] <INPUT>",
  "       comptime check [--strategy <STRATEGY>] <INPUT>",
  "       comptime run [--call <NAME>] <INPUT> [ARGS]...",
  "       comptime version"]

/-- The description of the arguments. -/
def helpLines : List String :=
  "Precompute @comptime functions in Aether Script and inline their results" :: "" :: usage ++ [
    "",
    "Options:",
    "  -o, --output <FILE>        Output file (default: NAME_compiled.ath next to the input)",
    "      --absolute             Treat the input as a standalone module even inside a package",
    "      --strategy <STRATEGY>  Body generated for parameterised functions (match, dict)",
    "      --no-format            Keep the printer's compact layout",
    "      --emit-results         Print the precomputed results as JSON",
    "      --config <FILE>        JSON file with compile options; flags override it",
    "  -h, --help                 Print help",
    "  -V, --version              Print version"]

def execute (files : FileTree) (args : List String) : Outcome :=
  match Command.ofArguments args with
  | .ok command => command.execute files
  | .error .help => { output := helpLines, files := files }
  | .error .version => { output := ["comptime 0.1.0"], files := files }
  | .error .invalid => { errors := "error: invalid arguments" :: usage, code := 2, files := files }

end StagedScript.CommandLine
