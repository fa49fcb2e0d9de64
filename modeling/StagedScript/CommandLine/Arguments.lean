import StagedScript.Text.Search

/-!
# Arguments

A list of arguments holds options and inputs in any order.  A form says which
options there are, how many inputs are expected and whether further values may
follow them; from the first further value on, and after a bare double hyphen,
nothing is an option any more.
-/

namespace StagedScript.CommandLine

/-- What an option asks for. -/
inductive OptionKind
  /-- Nothing follows. -/
  | switch
  /-- Any text follows. -/
  | text
  /-- A text that is not empty follows. -/
  | path
  /-- The description of the arguments is asked for. -/
  | help
  /-- The version is asked for. -/
  | version
  deriving Repr, DecidableEq

/-- Whether a text follows. -/
def OptionKind.takesText : OptionKind → Bool
  | text | path => true
  | _ => false

/-- An option with its names. -/
structure OptionForm where
  name : String
  kind : OptionKind
  short : Option Char := none
  deriving Repr, DecidableEq

/-- Which arguments are expected. -/
structure Form where
  options : List OptionForm
  /-- How many inputs are expected. -/
  inputs : Nat
  /-- Whether further values may follow the inputs. -/
  further : Bool := false
  deriving Repr, DecidableEq

namespace Form

def named? (form : Form) (name : String) : Option OptionForm :=
  form.options.find? (·.name == name)

/-- The option with a name of one character. -/
def short? (form : Form) (c : Char) : Option OptionForm :=
  form.options.find? (·.short == some c)

end Form

/-- Why arguments are not read to their end. -/
inductive Stop
  | invalid
  | help
  | version
  deriving Repr, DecidableEq

/-- What a list of arguments says. -/
structure Arguments where
  /-- The options with their texts. -/
  options : List (String × String) := []
  /-- The inputs and the values that follow them. -/
  inputs : List String := []
  deriving Repr, DecidableEq

namespace Arguments

def has (a : Arguments) (name : String) : Bool :=
  (a.options.lookup name).isSome

def text? (a : Arguments) (name : String) : Option String :=
  a.options.lookup name

end Arguments

/-- Arguments that are being read. -/
structure Reading extends Arguments where
  /-- The option whose text comes next. -/
  awaiting : Option OptionForm := none
  /-- Whether no more options follow. -/
  closed : Bool := false
  deriving Repr, DecidableEq

namespace Reading

/-- Notes an option with its text.  No option is given twice. -/
def give (r : Reading) (option : OptionForm) (text : String) : Except Stop Reading :=
  if r.has option.name ∨ option.kind = .path ∧ text = "" then .error .invalid
  else .ok { r with options := (option.name, text) :: r.options, awaiting := none }

def atFurther (r : Reading) (form : Form) : Bool :=
  form.further && r.inputs.length == form.inputs

/-- Takes an argument as a text: the text of an option, an input or a further value. -/
def value (form : Form) (r : Reading) (text : String) : Except Stop Reading :=
  match r.awaiting with
  | some option => r.give option text
  | none =>
    if r.inputs.length < form.inputs then
      if text = "" then .error .invalid else .ok { r with inputs := r.inputs ++ [text] }
    else if form.further then .ok { r with inputs := r.inputs ++ [text], closed := true }
    else .error .invalid

/-- Takes an option that may have its text attached. -/
def option (r : Reading) (option : OptionForm) (attached : Option String) : Except Stop Reading :=
  match r.awaiting, option.kind, attached with
  | some _, _, _ => .error .invalid
  | none, .help, none => .error .help
  | none, .version, none => .error .version
  | none, .switch, none => r.give option ""
  | none, .text, some text | none, .path, some text => r.give option text
  | none, .text, none | none, .path, none => .ok { r with awaiting := some option }
  | none, _, some _ => .error .invalid

/-- Takes options with names of one character that stand together; the text of the last one may
follow it. -/
def cluster (form : Form) (r : Reading) : List Char → Except Stop Reading
  | [] => .ok r
  | c :: cs =>
    match form.short? c with
    | none => .error .invalid
    | some option =>
      if option.kind.takesText then
        match cs with
        | [] => r.option option none
        | '=' :: text | text => r.option option (some (String.ofList text))
      else do
        (← r.option option none).cluster form cs

/-- Takes an argument that starts with two hyphens.  Where further values come next, it is one if
it is no option. -/
def long (form : Form) (r : Reading) (text : String) (chars : List Char) : Except Stop Reading :=
  let name := String.ofList (chars.takeWhile (· != '='))
  match form.named? name, chars.dropWhile (· != '=') with
  | some option, [] => r.option option none
  | some option, _ :: attached => r.option option (some (String.ofList attached))
  | none, _ => if r.atFurther form then r.value form text else .error .invalid

/-- Takes an argument that starts with one hyphen.  Where further values come next, it is one
unless all its characters are options. -/
def short (form : Form) (r : Reading) (text : String) (chars : List Char) : Except Stop Reading :=
  if r.atFurther form ∧ chars.any (fun c => (form.short? c).isNone) then r.value form text
  else if r.awaiting.isSome then .error .invalid
  else r.cluster form chars

/-- Takes an argument. -/
def next (form : Form) (r : Reading) (text : String) : Except Stop Reading :=
  if r.closed then r.value form text
  else
    match text.toList with
    | ['-', '-'] => if r.awaiting.isSome then .error .invalid else .ok { r with closed := true }
    | '-' :: '-' :: chars => r.long form text chars
    | '-' :: c :: chars => r.short form text (c :: chars)
    | _ => r.value form text

end Reading

def Form.read (form : Form) (args : List String) : Except Stop Arguments := do
  let r ← args.foldlM (Reading.next form) {}
  if r.awaiting.isSome then throw .invalid
  return r.toArguments

end StagedScript.CommandLine
