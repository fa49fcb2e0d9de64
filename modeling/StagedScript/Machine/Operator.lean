import StagedScript.Machine.Basic
import StagedScript.Text.Repetition
import StagedScript.Value.Arithmetic
import StagedScript.Value.Comparison

/-!
# Operators on values

The operators of expressions, the iteration over containers and the access to
their items.
-/

namespace StagedScript

open Syntax (BinaryOp UnaryOp Constant)

namespace Run

/-- The items that a loop over a value goes through. -/
def iterate (v : Value) : Run (List Value) := do
  let heap ← getHeap
  match v with
  | .list r => return (heap.list r).toList
  | .tuple r => return (heap.tuple r).toList
  | .string s => return s.toList.map fun c => .string (String.singleton c)
  | .dict r => return (heap.dict r).toList.map (·.1)
  | other => fault (.notIterable other.typeName)

/-- Fails if a value cannot be a key. -/
def checkHashable (v : Value) : Run Unit := do
  if (← getHeap).isHashable v then return () else fault (.unhashable v.typeName)

def equal (a b : Value) : Run Bool := do
  return (← getHeap).equal a b

/-- The order of two values, for the operator `op`. -/
def order (op : BinaryOp) (a b : Value) : Run (Option Ordering) := do
  match (← getHeap).order a b with
  | .ok ordering => return ordering
  | .error types => fault (.notOrdered op types.left types.right)

/-- Whether a comparison holds for an order. -/
def holds (op : BinaryOp) : Option Ordering → Bool
  | none => false
  | some ordering =>
    match op with
    | .lt => ordering.isLT
    | .gt => ordering.isGT
    | .le => ordering.isLE
    | _ => ordering.isGE

/-- Whether a container holds a value. -/
def contains (container needle : Value) : Run Bool := do
  let heap ← getHeap
  match container with
  | .string s =>
    match needle with
    | .string t => return Text.contains t s
    | other => fault (.notStringInString other.typeName)
  | .list r => return (heap.list r).any (heap.equal · needle)
  | .tuple r => return (heap.tuple r).any (heap.equal · needle)
  | .dict r =>
    checkHashable needle
    return (heap.keyIndex? needle (heap.dict r)).isSome
  | other => fault (.notContainer other.typeName)

/-- The items of two sequences one after the other, in an array without room for more. -/
def joined (as bs : Array Value) : Array Value :=
  Array.emptyWithCapacity (as.size + bs.size) ++ as ++ bs

theorem joined_eq (as bs : Array Value) : joined as bs = as ++ bs := by
  simp [joined]

def repeated (items : Array Value) (times : Int64) : Run (Array Value) := do
  let count ← ofExcept (repeatCount items.size times)
  return (Array.replicate count items).flatten

/-- A sum, a product or another arithmetic operation. -/
def arithmetic (op : BinaryOp) (a b : Value) : Run Value := do
  let heap ← getHeap
  match op, a, b with
  | .add, .string s, .string t => return .string (s ++ t)
  | .add, .list r, .list s => newList (joined (heap.list r) (heap.list s))
  | .add, .tuple r, .tuple s => newTuple (joined (heap.tuple r) (heap.tuple s))
  | .mul, .string s, .int n | .mul, .int n, .string s =>
    let count ← ofExcept (repeatCount s.utf8ByteSize n)
    return .string (Text.repeated s count)
  | .mul, .list r, .int n | .mul, .int n, .list r =>
    newList (← repeated (heap.list r) n)
  | .mul, .tuple r, .int n | .mul, .int n, .tuple r =>
    newTuple (← repeated (heap.tuple r) n)
  | op, .constant c, .constant d =>
    match arithmetic? op c d with
    | some result => return .constant (← ofExcept result)
    | none => fault (.unsupportedOperands op a.typeName b.typeName)
  | op, a, b => fault (.unsupportedOperands op a.typeName b.typeName)

/-- An operation on two values that are both known. -/
def binary (op : BinaryOp) (a b : Value) : Run Value := do
  match op with
  | .eq => return .bool (← equal a b)
  | .ne => return .bool !(← equal a b)
  | .lt | .gt | .le | .ge => return .bool (holds op (← order op a b))
  | .isIn => return .bool (← contains b a)
  | .notIn => return .bool !(← contains b a)
  | op => arithmetic op a b

/-- An operation on one value. -/
def unary (op : UnaryOp) (v : Value) : Run Value := do
  match op, v with
  | .not, v => return .bool !(← isTrue v)
  | op, .constant c =>
    match signed? op c with
    | some result => return .constant (← ofExcept result)
    | none => fault (.badUnaryOperand op v.typeName)
  | op, v => fault (.badUnaryOperand op v.typeName)

/-- The position that an index denotes in a sequence of the given length; a negative one counts
from the end. -/
def position (what : Indexed) (length : Nat) (index : Value) : Run (Fin length) := do
  match index with
  | .int n =>
    let place := if n.toInt < 0 then n.toInt + length else n.toInt
    if h : 0 ≤ place ∧ place < length then return ⟨place.toNat, by omega⟩
    else fault (.indexOutOfRange what)
  | other => fault (.badIndexType what other.typeName)

def itemAt (what : Indexed) (items : Array Value) (index : Value) : Run Value := do
  return items[← position what items.size index]

def characterAt (characters : List Char) (index : Value) : Run Value := do
  return .string (String.singleton characters[← position .string characters.length index])

/-- The item of a container under an index or a key.  An annotation form gives its arguments. -/
def subscript (target index : Value) : Run Value := do
  let heap ← getHeap
  match target with
  | .list r => itemAt .list (heap.list r) index
  | .tuple r => itemAt .tuple (heap.tuple r) index
  | .string s => characterAt s.toList index
  | .dict r =>
    checkHashable index
    match heap.valueAt? index (heap.dict r) with
    | some value => return value
    | none => fault (.missingKey (← view index).repr)
  | .builtin (.form _) =>
    match index with
    | .tuple r => return .tuple r
    | other => newTuple #[other]
  | other => fault (.notSubscriptable other.typeName)

/-- Changes the item of a container under an index or a key. -/
def setItem (target index value : Value) : Run Unit := do
  let heap ← getHeap
  match target with
  | .list r =>
    let place ← position .list (heap.list r).size index
    modifyHeap (·.updateList r (·.setIfInBounds place value))
  | .dict r =>
    checkHashable index
    modifyHeap fun heap => heap.setDict r (heap.insertEntry index value (heap.dict r))
  | other => fault (.noItemAssignment other.typeName)

def methodsOf : Value → List Method
  | .string _ => Method.ofStrings
  | .list _ => Method.ofLists
  | .tuple _ => Method.ofTuples
  | .dict _ => Method.ofDicts
  | _ => []

def markerAttribute? (field : String) : Option Marker :=
  [Marker.skip, .comptime, .getRegistrations].find? (·.name == field)

/-- The attribute of a value. -/
def member (target : Value) (field : String) : Run Value := do
  let heap ← getHeap
  match target with
  | .entity (.module name globals) =>
    match (heap.frame globals).get? field with
    | some value => return value
    | none => fault (.noModuleAttribute name field)
  | .entity (.marker .comptime) =>
    match markerAttribute? field with
    | some m => return .marker m
    | none => fault (.noAttribute target.typeName field)
  | .entity (.function _ name) =>
    if field = "__name__" then return .string name
    else fault (.noAttribute target.typeName field)
  | .entity (.exception e) =>
    if field = "args" then newTuple #[.string e.message]
    else fault (.noAttribute target.typeName field)
  | target =>
    match (methodsOf target).find? (·.name == field) with
    | some method => return .method target method
    | none => fault (.noAttribute target.typeName field)

end Run

end StagedScript
