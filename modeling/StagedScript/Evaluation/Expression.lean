import StagedScript.Builtin.Table
import StagedScript.Machine.Operator

/-!
# The value of an expression

Evaluation follows the tree from left to right.  Calls and imports lead into
other trees; they are taken from `Services`.
-/

namespace StagedScript.Evaluation

open Run
open Syntax (Expr Entry FormattedPart)

/-- What leads out of the tree that is being evaluated. -/
structure Services where
  /-- Calls a value. -/
  call : Value → List Value → Run Value
  /-- Loads a module by its full name. -/
  load : String → Run LoadedModule
  /-- How many rounds a loop may take. -/
  rounds : Nat

/-- The value of a name: a variable or something that every module knows. -/
def nameValue (scope : Scope) (name : String) : Run Value := do
  match (← getHeap).lookup? scope name with
  | some value => return value
  | none =>
    match Builtin.global? name with
    | some value => return value
    | none => fault (.undefinedName name)

mutual

/-- The value of an expression. -/
def eval (s : Services) (scope : Scope) : Expr → Run Value
  | .name id _ => nameValue scope id
  | .constant value _ => return .constant value
  | .formatted parts _ => return .string (← evalParts s scope parts)
  | .tuple items _ => do newTuple (← evalAll s scope items).toArray
  | .list items _ => do newList (← evalAll s scope items).toArray
  | .dict entries _ => do newDict (← evalEntries s scope #[] entries)
  | .member target field _ => do member (← eval s scope target) field
  | .subscript target index _ => do
    let target ← eval s scope target
    subscript target (← eval s scope index)
  | .call callee args _ => do
    let callee ← eval s scope callee
    s.call callee (← evalAll s scope args)
  | .binary op left right _ => do
    let left ← eval s scope left
    match op with
    | .and => if ← isTrue left then eval s scope right else return left
    | .or => if ← isTrue left then return left else eval s scope right
    | op => binary op left (← eval s scope right)
  | .unary op operand _ => do unary op (← eval s scope operand)
  | .conditional condition thenValue elseValue _ => do
    if ← isTrue (← eval s scope condition) then eval s scope thenValue
    else eval s scope elseValue

def evalAll (s : Services) (scope : Scope) : List Expr → Run (List Value)
  | [] => return []
  | e :: es => do
    let value ← eval s scope e
    return value :: (← evalAll s scope es)

/-- The entries of a dictionary after those that were already evaluated. -/
def evalEntries (s : Services) (scope : Scope) (found : Array (Value × Value)) :
    List Entry → Run (Array (Value × Value))
  | [] => return found
  | .pair key value :: entries => do
    let key ← eval s scope key
    checkHashable key
    let value ← eval s scope value
    evalEntries s scope ((← getHeap).insertEntry key value found) entries

/-- The text of a formatted string. -/
def evalParts (s : Services) (scope : Scope) : List FormattedPart → Run String
  | [] => return ""
  | .literal text :: parts => return text ++ (← evalParts s scope parts)
  | .field value written :: parts => do
    let datum ← view (← eval s scope value)
    let text := if written then datum.repr else datum.str
    return text ++ (← evalParts s scope parts)

end

mutual

/-- Assigns a value to a name, an item, an attribute or several targets at once. -/
def assign (s : Services) (scope : Scope) (target : Expr) (value : Value) : Run Unit := do
  match target with
  | .name id _ => bind scope id value
  | .tuple targets _ | .list targets _ =>
    let items ← iterate value
    if items.length < targets.length then
      fault (.tooFewToUnpack targets.length items.length)
    else if targets.length < items.length then
      fault (.tooManyToUnpack targets.length)
    else
      assignAll s scope targets items
  | .subscript target index _ =>
    let target ← eval s scope target
    let index ← eval s scope index
    setItem target index value
  | .member target field _ =>
    match ← eval s scope target with
    | .module _ globals => modifyHeap (·.setName globals field value)
    | other => fault (.readOnlyAttribute other.typeName field)
  | _ => fault .notAssignable

def assignAll (s : Services) (scope : Scope) : List Expr → List Value → Run Unit
  | target :: targets, value :: values => do
    assign s scope target value
    assignAll s scope targets values
  | _, _ => return ()

end

end StagedScript.Evaluation
