import StagedScript.Builtin.Function
import StagedScript.Builtin.Method
import StagedScript.Evaluation.Statement
import StagedScript.Staging.Marker
import StagedScript.Syntax.Diagnostic
import StagedScript.Syntax.Parser.Statement

/-!
# Running programs

Calls, modules and imports.  `services` ties evaluation to them, with a bound
on how deep calls and imports may nest.
-/

namespace StagedScript.Evaluation

open Run
open Syntax (Block SyntaxFault)

/-- How many calls of functions of the program may be active. -/
def maxDepth : Nat := 64

/-- The variables of a call: every parameter gets its argument or its default. -/
def bindParams (f : Function) (args : List Value) : Run Bindings := do
  let name := f.header.name
  if f.header.params.length < args.length then
    fault (.tooManyArguments name f.header.params.length args.length)
  let filled := args.map some ++ List.replicate f.header.params.length none
  let pairs := (f.header.params.zip f.defaults).zip filled
  pairs.foldlM
    (fun bindings ((param, default), arg) =>
      match arg.or default with
      | some value => pure (bindings.set param.name value)
      | none => fault (.missingArgument name param.name))
    []

/-- Calls a function of the program. -/
def callFunction (s : Services) (f : Function) (args : List Value) : Run Value := do
  let frame ← changeHeap (·.addFrame (← bindParams f args))
  if maxDepth ≤ (← get).depth then fault .recursionLimit
  let flow ← bracket Machine.enterCall Machine.leaveCall (execBlock s (frame :: f.scope) f.body)
  match flow with
  | .returned value => return value
  | _ => return .none

/-- Builds an exception: its message is the text of one argument or of the tuple of several. -/
def newException (kind : ExceptionKind) (args : List Value) : Run Value := do
  let message ←
    match args with
    | [] => pure ""
    | [single] => pure (← view single).str
    | several => pure (← view (← newTuple several.toArray)).repr
  return .entity (.exception ⟨kind, message⟩)

def callBuiltin (f : Builtin) (args : List Value) : Run Value :=
  match f with
  | .global f => Builtin.callGlobal f args
  | .math f => Builtin.callMath f args
  | .form _ => fault .specialFormCall

/-- Calls an entity.  A skipped function does nothing while code is evaluated ahead of time. -/
def callEntity (s : Services) (e : Entity) (args : List Value) : Run Value := do
  match e with
  | .function code name =>
    match (← getHeap).function? code with
    | some f => callFunction s f args
    | none => fault (.undefinedName name)
  | .builtin f => callBuiltin f args
  | .marker m => Staging.applyMarker m args
  | .skipped inner => if (← get).ahead then return .none else callEntity s inner args
  | .exceptionType kind => newException kind args
  | .module _ _ | .exception _ => fault (.notCallable e.typeName)

def callValue (s : Services) (callee : Value) (args : List Value) : Run Value :=
  match callee with
  | .entity e => callEntity s e args
  | .method receiver method => Builtin.callMethod receiver method args
  | .awaiting spec => Staging.applyAwaiting spec args
  | other => fault (.notCallable other.typeName)

/-! ## Modules -/

/-- Under which name, in which package and from which file a module runs. -/
structure ModuleSpec where
  name : String
  package : Option String := none
  file : Option String := none
  deriving Repr, DecidableEq

/-- The globals that a module starts with. -/
def ModuleSpec.globals (spec : ModuleSpec) : Bindings :=
  [("__name__", .string spec.name), ("__package__", (spec.package.map Value.string).getD .none)]
    ++ (spec.file.map fun file => ("__file__", Value.string file)).toList

/-- Runs the statements of a module.  If they end without an exception, the module is loaded under
its name. -/
def execBody (s : Services) (spec : ModuleSpec) (body : Block) : Run LoadedModule := do
  let globals ← changeHeap (·.addFrame spec.globals)
  let m : LoadedModule := ⟨spec.name, globals⟩
  let _ ← execBlock s [globals] body
  modify fun machine => { machine with modules := machine.modules.insert spec.name m }
  return m

/-- Runs the text of a module, unless it has a syntax fault. -/
def execSource (s : Services) (spec : ModuleSpec) (source : String) :
    Run (Except SyntaxFault LoadedModule) := do
  match Syntax.readModule source with
  | .error f => return .error f
  | .ok body => return .ok (← execBody s spec body)

def addModule (name : String) (globals : Bindings) : Run LoadedModule := do
  let m : LoadedModule := ⟨name, ← changeHeap (·.addFrame globals)⟩
  modify fun machine => { machine with modules := machine.modules.insert name m }
  return m

/-- Runs the file of a module, which is noted as running in `modules` and not any more when the
run has ended, whether or not it came to its end. -/
def whileLoading (modules : ModuleCache) (name : String)
    (action : Run (Except SyntaxFault LoadedModule)) : Run (Except SyntaxFault LoadedModule) :=
  fun m =>
    match action { m with modules := modules } with
    | .ok result m => .ok result { m with modules := m.modules.endLoading name result.isOk }
    | .error e m => .error e { m with modules := m.modules.endLoading name false }

/-- Loads a module from its file.  It counts as running until it ends. -/
def loadFile (s : Services) (path : String) (spec : ModuleSpec) : Run LoadedModule := do
  match (← get).files.read path with
  | .error e => fault (.cannotRead path e.message)
  | .ok source =>
    let modules ← ofExcept ((← get).modules.beginLoading spec.name)
    match ← whileLoading modules spec.name (execSource s spec source) with
    | .ok m => return m
    | .error f => fault (.malformedModule f.message)

/-- Loads a module that is neither loaded nor built in, after the package that holds it, and makes
it an attribute of that package. -/
def findAndLoad (s : Services) (name : String) : Run LoadedModule := do
  let outer := splitName? name
  if let some (package, _) := outer then
    let _ ← s.load package
  let machine ← get
  let m ←
    match machine.modules.find? machine.files name with
    | none => fault (.noModule name)
    | some (.bare _) => addModule name []
    | some (.package path) => loadFile s path ⟨name, some name, some path⟩
    | some (.file path) => loadFile s path ⟨name, outer.map (·.1), some path⟩
  if let some (package, child) := outer then
    if let some holder := (← get).modules.get? package then
      modifyHeap (·.setName holder.globals child m.value)
  return m

/-- Loads a module by its full name, at most once. -/
def loadModule (s : Services) (name : String) : Run LoadedModule := do
  match (← get).modules.get? name with
  | some m => return m
  | none =>
    match Builtin.module? name with
    | some globals => addModule name globals
    | none => findAndLoad s name

/-! ## Tying the knot -/

/-- Calls and imports that are nested less than `n` deep, with loops of at most `rounds`
rounds. -/
def services (rounds : Nat) : Nat → Services
  | 0 =>
    { call := fun _ _ => throw .exhausted
      load := fun _ => throw .exhausted
      rounds := rounds }
  | n + 1 =>
    { call := fun callee args => callValue (services rounds n) callee args
      load := fun name => loadModule (services rounds n) name
      rounds := rounds }

/-- A number of steps that no machine gets through. -/
def unlimited : Nat := Nat.pow 2 60

/-- Calls and imports without a limit of their own. -/
def fullServices : Services :=
  services unlimited unlimited

end StagedScript.Evaluation
