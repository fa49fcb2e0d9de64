import StagedScript.Evaluation.Expression

/-!
# The effect of a statement

A statement ends normally or makes its block, its loop or its function end.
-/

namespace StagedScript.Evaluation

open Run
open Syntax (Alias Block Case Expr FunctionHeader Pattern Stmt)

/-- How a statement ends. -/
inductive Flow
  | normal
  | returned (value : Value)
  | broke
  | continued
  deriving Repr, DecidableEq

/-- Runs the body as long as the condition holds, but not more than `n` times. -/
def loopWhile (condition : Run Bool) (body : Run Flow) : Nat → Run Flow
  | 0 => throw .exhausted
  | n + 1 => do
    if ← condition then
      match ← body with
      | .broke => return .normal
      | .returned value => return .returned value
      | _ => loopWhile condition body n
    else
      return .normal

/-- Runs the body for every item. -/
def loopOver (body : Value → Run Flow) : List Value → Run Flow
  | [] => return .normal
  | item :: items => do
    match ← body item with
    | .broke => return .normal
    | .returned value => return .returned value
    | _ => loopOver body items

/-- A step of matching with the bindings that were met so far. -/
abbrev Matcher := StateT Bindings Run

mutual

/-- Whether a pattern matches a value.  A name is bound as soon as it is met, and stays so if a
later part does not match. -/
def matchPattern (s : Services) (scope : Scope) (subject : Value) : Pattern → Matcher Bool
  | .wildcard => return true
  | .capture name => do
    modify (· ++ [(name, subject)])
    return true
  | .value e => do
    let value ← eval s scope e
    equal value subject
  | .sequence patterns => do
    let heap ← getHeap
    match subject with
    | .tuple r => matchItems s scope (heap.tuple r).toList patterns
    | .list r => matchItems s scope (heap.list r).toList patterns
    | _ => return false
  | .alternatives patterns => matchFirst s scope subject patterns

/-- Whether there are as many patterns as items and each matches its item. -/
def matchItems (s : Services) (scope : Scope) (items : List Value) (patterns : List Pattern) :
    Matcher Bool :=
  if items.length = patterns.length then matchAll s scope items patterns else return false

/-- Whether patterns match their items, up to the first one that does not. -/
def matchAll (s : Services) (scope : Scope) : List Value → List Pattern → Matcher Bool
  | item :: items, pattern :: patterns => do
    if ← matchPattern s scope item pattern then matchAll s scope items patterns
    else return false
  | _, _ => return true

/-- Whether one of the patterns matches a value.  Each has bindings of its own, and those of the
first one that matches are added. -/
def matchFirst (s : Services) (scope : Scope) (subject : Value) : List Pattern → Matcher Bool
  | [] => return false
  | pattern :: patterns => do
    let (found, bindings) ← (matchPattern s scope subject pattern).run []
    if found then
      modify (· ++ bindings)
      return true
    else matchFirst s scope subject patterns

end

def bindAll (scope : Scope) (bindings : Bindings) : Run Unit :=
  bindings.forM fun (name, value) => bind scope name value

def evalDefaults (s : Services) (scope : Scope) (header : FunctionHeader) :
    Run (List (Option Value)) :=
  header.params.mapM fun p => p.default.mapM (eval s scope)

/-- Calls decorators with a function, the last one first. -/
def decorate (s : Services) (decorators : List Value) (f : Value) : Run Value :=
  decorators.foldrM (fun decorator value => s.call decorator [value]) f

/-- The value of a function definition.  Defaults and decorators are evaluated from top to
bottom before the function is there. -/
def define (s : Services) (scope : Scope) (header : FunctionHeader) (body : Block) :
    Run Value := do
  let defaults ← evalDefaults s scope header
  let decorators ← evalAll s scope header.decorators
  let code ← changeHeap (·.addFunction ⟨header, body, defaults, scope⟩)
  decorate s decorators (.entity (.function code header.name))

/-- Imports a module.  Without a new name the outermost package is bound. -/
def importModule (s : Services) (scope : Scope) (a : Alias) : Run Unit := do
  let m ← s.load a.name
  let bound ← if a.rename.isSome then pure m else s.load a.boundName
  bind scope a.boundName bound.value

def currentPackage (scope : Scope) : Run (Option String) := do
  match (← getHeap).lookup? scope "__package__" with
  | some (.string package) => return some package
  | _ => return none

/-- Imports a name from a module: one of its globals or a module inside of it. -/
def importName (s : Services) (scope : Scope) (m : LoadedModule) (name : String) (a : Alias) :
    Run Unit := do
  let value ←
    match ((← getHeap).frame m.globals).get? a.name with
    | some value => pure value
    | none =>
      let inner := name ++ "." ++ a.name
      let machine ← get
      if (machine.modules.find? machine.files inner).isSome then
        pure (← s.load inner).value
      else
        fault (.cannotImportName a.name name)
  bind scope a.boundName value

/-- The exception that a raised value stands for. -/
def raised (v : Value) : Run Exception :=
  match v with
  | .entity (.exception e) => pure e
  | .entity (.exceptionType kind) => pure ⟨kind, ""⟩
  | _ => fault .notException

mutual

/-- Runs a statement. -/
def exec (s : Services) (scope : Scope) : Stmt → Run Flow
  | .function header body => do
    bind scope header.name (← define s scope header body)
    return .normal
  | .branch condition thenBlock elseBlock _ => do
    if ← isTrue (← eval s scope condition) then execBlock s scope thenBlock
    else
      match elseBlock with
      | some block => execBlock s scope block
      | none => return .normal
  | .whileLoop condition body _ =>
    loopWhile (do isTrue (← eval s scope condition)) (execBlock s scope body) s.rounds
  | .forLoop target iterable body _ => do
    let items ← iterate (← eval s scope iterable)
    let round (item : Value) : Run Flow := do
      assign s scope target item
      execBlock s scope body
    loopOver round items
  | .matchOn subject cases _ => do execCases s scope (← eval s scope subject) cases
  | .returnValue value _ =>
    match value with
    | some e => return .returned (← eval s scope e)
    | none => return .returned .none
  | .raise exception _ => do
    match exception with
    | some e => raise (← raised (← eval s scope e))
    | none => fault .nothingToReraise
  | .assign target value _ => do
    assign s scope target (← eval s scope value)
    return .normal
  | .augment op target value _ => do
    let current ← eval s scope target
    let other ← eval s scope value
    assign s scope target (← binary op current other)
    return .normal
  | .importModules names _ => do
    names.forM (importModule s scope)
    return .normal
  | .importNames level module names _ => do
    let name ← ofExcept (resolveName (← currentPackage scope) level module)
    let m ← s.load name
    names.forM (importName s scope m name)
    return .normal
  | .expr value => do
    let _ ← eval s scope value
    return .normal
  | .comment _ | .pass => return .normal
  | .breakLoop => return .broke
  | .continueLoop => return .continued

/-- Runs statements up to the first one that does not end normally. -/
def execBlock (s : Services) (scope : Scope) : List Stmt → Run Flow
  | [] => return .normal
  | stmt :: stmts => do
    match ← exec s scope stmt with
    | .normal => execBlock s scope stmts
    | flow => return flow

/-- Runs the body of the first case whose pattern matches a value. -/
def execCases (s : Services) (scope : Scope) (subject : Value) : List Case → Run Flow
  | [] => return .normal
  | .on pattern body :: cases => do
    let (found, bindings) ← (matchPattern s scope subject pattern).run []
    if found then
      bindAll scope bindings
      execBlock s scope body
    else execCases s scope subject cases

end

end StagedScript.Evaluation
