import StagedScript.CommandLine.Arguments

/-!
# Commands

What the program can be asked for, and how a list of arguments asks for it.  The
first argument names the command; without a command the arguments are those of
a build.
-/

namespace StagedScript.CommandLine

/-- The options of a build. -/
structure BuildOptions where
  output : Option String := none
  absolute : Bool := false
  strategy : Option String := none
  noFormat : Bool := false
  emitResults : Bool := false
  config : Option String := none
  deriving Repr, DecidableEq

/-- What to do. -/
inductive Command
  /-- Compile a file and write the text. -/
  | build (input : String) (options : BuildOptions)
  /-- Compile a file without writing the text. -/
  | check (input : String) (strategy : Option String)
  /-- Run a file as a program and perhaps call one of its functions. -/
  | run (input : String) (call : Option String) (args : List String)
  | version
  /-- Nothing was asked for. -/
  | missing
  deriving Repr, DecidableEq

namespace Command

def helpOption : OptionForm := ⟨"help", .help, some 'h'⟩

def strategyOption : OptionForm := ⟨"strategy", .text, none⟩

def buildForm : Form where
  options := [
    ⟨"output", .path, some 'o'⟩, ⟨"absolute", .switch, none⟩, strategyOption,
    ⟨"no-format", .switch, none⟩, ⟨"emit-results", .switch, none⟩, ⟨"config", .path, none⟩,
    helpOption]
  inputs := 1

def bareForm : Form :=
  { buildForm with options := ⟨"version", .version, some 'V'⟩ :: buildForm.options }

def checkForm : Form where
  options := [strategyOption, helpOption]
  inputs := 1

def runForm : Form where
  options := [⟨"call", .text, none⟩, helpOption]
  inputs := 1
  further := true

def emptyForm : Form where
  options := [helpOption]
  inputs := 0

/-- The options of a build among arguments. -/
def buildOptions (a : Arguments) : BuildOptions where
  output := a.text? "output"
  absolute := a.has "absolute"
  strategy := a.text? "strategy"
  noFormat := a.has "no-format"
  emitResults := a.has "emit-results"
  config := a.text? "config"

def names : List String :=
  ["build", "check", "run", "version", "help"]

/-- The command that arguments ask for. -/
def ofArguments : List String → Except Stop Command
  | "build" :: args => do
    let a ← buildForm.read args
    match a.inputs with
    | [input] => return .build input (buildOptions a)
    | _ => throw .invalid
  | "check" :: args => do
    let a ← checkForm.read args
    match a.inputs with
    | [input] => return .check input (a.text? "strategy")
    | _ => throw .invalid
  | "run" :: args => do
    let a ← runForm.read args
    match a.inputs, a.text? "call" with
    | [], _ | _ :: _ :: _, none => throw .invalid
    | input :: values, call => return .run input call values
  | "version" :: args => do
    let _ ← emptyForm.read args
    return .version
  | ["help"] => throw .help
  | ["help", name] => throw (if names.contains name then .help else .invalid)
  | "help" :: _ => throw .invalid
  | args => do
    let a ← bareForm.read args
    match a.inputs with
    | input :: _ => return .build input (buildOptions a)
    | [] => return .missing

/-- The paths of the files that a command uses. -/
def paths : Command → List String
  | build input options => input :: options.config.toList ++ options.output.toList
  | check input _ | run input _ _ => [input]
  | version | missing => []

end Command

end StagedScript.CommandLine
