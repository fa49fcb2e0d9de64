import StagedScript.Machine.Operator
import StagedScript.Text.Blank
import StagedScript.Text.Casing

/-!
# Methods

What the methods of strings and containers do.
-/

namespace StagedScript.Builtin

open Run

/-- A method call with arguments that the method does not take. -/
def badCall (type : String) (method : Method) (args : List Value) : Run Value :=
  fault (.badMethodCall type method.name args.length)

def stringArg (method : Method) : Value → Run String
  | .string s => pure s
  | other => fault (.notString method.name other.typeName)

def newStrings (texts : List String) : Run Value :=
  newList (texts.map Value.string).toArray

/-- The pieces of a text with the text of a replacement in each gap; nothing if there are too few
replacements. -/
def fillGaps? {α : Type} (text : α → String) : List String → List α → Option String
  | [], _ => some ""
  | [last], _ => some last
  | _ :: _ :: _, [] => none
  | piece :: next :: pieces, replacement :: replacements =>
    (fillGaps? text (next :: pieces) replacements).map fun rest => piece ++ text replacement ++ rest

/-- Calls a method of a string. -/
def callStringMethod (s : String) (method : Method) (args : List Value) : Run Value := do
  match method, args with
  | .upper, [] => return .string (Text.toUpperCase s)
  | .lower, [] => return .string (Text.toLowerCase s)
  | .strip, [] => return .string (Text.trim s)
  | .split, [] => newStrings (Text.words s)
  | .split, [separator] =>
    let separator ← stringArg method separator
    if separator.isEmpty then fault .emptySeparator else newStrings (Text.splitAt separator s)
  | .join, [items] =>
    let items ← iterate items
    return .string (s.intercalate (← items.mapM (stringArg method)))
  | .replace, [old, new] =>
    let old ← stringArg method old
    let new ← stringArg method new
    return .string (Text.replaceAll old new s)
  | .startsWith, [start] => return .bool (Text.startsWith (← stringArg method start) s)
  | .endsWith, [ending] => return .bool (Text.endsWith (← stringArg method ending) s)
  | .format, args =>
    let heap ← getHeap
    match fillGaps? (fun v => (heap.view v).str) (Text.splitAt "\x7b\x7d" s) args with
    | some text => return .string text
    | none => fault .noReplacement
  | _, _ => badCall "str" method args

/-- Calls a method that lists and tuples share. -/
def callSequenceMethod (items : Array Value) (method : Method) (args : List Value) :
    Run Value := do
  let heap ← getHeap
  match method, args with
  | .index, [needle] =>
    match items.findIdx? (heap.equal · needle) with
    | some i => return .ofNat i
    | none => fault (.notInList (heap.view needle).repr)
  | .count, [needle] => return .ofNat (items.countP (heap.equal · needle))
  | _, _ => badCall "list" method args

/-- Calls a method of a list. -/
def callListMethod (r : Ref .list) (method : Method) (args : List Value) : Run Value := do
  let heap ← getHeap
  match method, args with
  | .append, [item] =>
    modifyHeap (·.updateList r (·.push item))
    return .none
  | .extend, [other] =>
    let extra ← iterate other
    modifyHeap (·.updateList r (· ++ extra.toArray))
    return .none
  | .pop, [] =>
    match ← changeHeap (·.popList r) with
    | some last => return last
    | none => fault .popFromEmpty
  | _, _ => callSequenceMethod (heap.list r) method args

/-- Calls a method of a dictionary. -/
def callDictMethod (r : Ref .dict) (method : Method) (args : List Value) : Run Value := do
  let heap ← getHeap
  let entries := heap.dict r
  let get (key default : Value) : Run Value := do
    checkHashable key
    return (heap.valueAt? key entries).getD default
  match method, args with
  | .get, [key] => get key .none
  | .get, [key, default] => get key default
  | .keys, [] => newList (entries.map (·.1))
  | .values, [] => newList (entries.map (·.2))
  | .items, [] => newList (← entries.mapM fun (key, value) => newTuple #[key, value])
  | _, _ => badCall "dict" method args

/-- Calls a method of a value. -/
def callMethod (receiver : Value) (method : Method) (args : List Value) : Run Value :=
  match receiver with
  | .string s => callStringMethod s method args
  | .list r => callListMethod r method args
  | .tuple r => do callSequenceMethod ((← getHeap).tuple r) method args
  | .dict r => callDictMethod r method args
  | other => badCall other.typeName method args

end StagedScript.Builtin
