import StagedScript.Value.Datum

/-!
# The heap

The containers, scopes and functions that values refer to.  Cells are only
added, so a reference stays valid.  `Heap.view` unfolds a value into a datum.
-/

namespace StagedScript

open Syntax (Block FunctionHeader)

/-- The variables of one scope, each name at most once. -/
abbrev Bindings := List (String × Value)

namespace Bindings

def get? (b : Bindings) (name : String) : Option Value :=
  List.lookup name b

def set : Bindings → String → Value → Bindings
  | [], name, value => [(name, value)]
  | (n, v) :: rest, name, value =>
    if n = name then (name, value) :: rest else (n, v) :: set rest name value

theorem get?_set (b : Bindings) (name other : String) (value : Value) :
    (b.set name value).get? other = if other = name then some value else b.get? other := by
  induction b with
  | nil => grind [set, get?]
  | cons head rest ih => grind [set, get?]

end Bindings

/-- The scopes in which names are looked up, innermost first. -/
abbrev Scope := List (Ref .frame)

/-- A function of a program: its code, the values of its defaults and where it was defined. -/
structure Function where
  header : FunctionHeader
  body : Block
  defaults : List (Option Value)
  scope : Scope

/-- Everything that values refer to, and how values are hashed. -/
structure Heap where
  tuples : Array (Array Value) := #[]
  lists : Array (Array Value) := #[]
  dicts : Array (Array (Value × Value)) := #[]
  frames : Array Bindings := #[]
  functions : Array Function := #[]
  digest : Digest := .standard

namespace Heap

def tuple (h : Heap) (r : Ref .tuple) : Array Value :=
  (h.tuples[r.index]?).getD #[]

def list (h : Heap) (r : Ref .list) : Array Value :=
  (h.lists[r.index]?).getD #[]

/-- The entries of a dictionary in the order of their first insertion. -/
def dict (h : Heap) (r : Ref .dict) : Array (Value × Value) :=
  (h.dicts[r.index]?).getD #[]

def frame (h : Heap) (r : Ref .frame) : Bindings :=
  (h.frames[r.index]?).getD []

def function? (h : Heap) (r : Ref .function) : Option Function :=
  h.functions[r.index]?

def addTuple (h : Heap) (items : Array Value) : Ref .tuple × Heap :=
  (⟨h.tuples.size⟩, { h with tuples := h.tuples.push items })

def addList (h : Heap) (items : Array Value) : Ref .list × Heap :=
  (⟨h.lists.size⟩, { h with lists := h.lists.push items })

@[simp]
theorem list_addList (h : Heap) (items : Array Value) :
    (h.addList items).2.list (h.addList items).1 = items := by
  rw [list, addList, Array.getElem?_push_size]
  rfl

def addDict (h : Heap) (entries : Array (Value × Value)) : Ref .dict × Heap :=
  (⟨h.dicts.size⟩, { h with dicts := h.dicts.push entries })

def addFrame (h : Heap) (bindings : Bindings) : Ref .frame × Heap :=
  (⟨h.frames.size⟩, { h with frames := h.frames.push bindings })

def addFunction (h : Heap) (f : Function) : Ref .function × Heap :=
  (⟨h.functions.size⟩, { h with functions := h.functions.push f })

def updateList (h : Heap) (r : Ref .list) (f : Array Value → Array Value) : Heap :=
  { h with lists := h.lists.modify r.index f }

def popList (h : Heap) (r : Ref .list) : Option Value × Heap :=
  ((h.list r).back?, h.updateList r (·.pop))

def setDict (h : Heap) (r : Ref .dict) (entries : Array (Value × Value)) : Heap :=
  { h with dicts := h.dicts.setIfInBounds r.index entries }

def setName (h : Heap) (r : Ref .frame) (name : String) (value : Value) : Heap :=
  { h with frames := h.frames.modify r.index (·.set name value) }

/-- The value of a name, from the innermost scope that has it. -/
def lookup? (h : Heap) (scope : Scope) (name : String) : Option Value :=
  scope.findSome? fun r => (h.frame r).get? name

/-- A value with its contents up to a depth; containers below look empty. -/
def viewWithin (h : Heap) : Nat → Value → Datum
  | _, .constant c => .constant c
  | _, .entity e => .entity e
  | _, .method receiver method => .method receiver.typeName method
  | 0, .tuple r => .tuple r []
  | 0, .list r => .list r []
  | 0, .dict r => .dict r []
  | 0, .awaiting r => .awaiting r []
  | n + 1, .tuple r => .tuple r ((h.tuple r).toList.map (viewWithin h n))
  | n + 1, .list r => .list r ((h.list r).toList.map (viewWithin h n))
  | n + 1, .dict r =>
    .dict r ((h.dict r).toList.map fun (key, value) => (viewWithin h n key, viewWithin h n value))
  | n + 1, .awaiting r => .awaiting r ((h.tuple r).toList.map (viewWithin h n))

@[simp]
theorem typeName_viewWithin (h : Heap) (n : Nat) (v : Value) :
    (h.viewWithin n v).typeName = v.typeName := by
  cases v <;> cases n <;> rfl

/-- How many containers there are.  No value without cycles is nested deeper. -/
def containers (h : Heap) : Nat :=
  h.tuples.size + h.lists.size + h.dicts.size

def view (h : Heap) (v : Value) : Datum :=
  h.viewWithin h.containers v

def isTrue (h : Heap) : Value → Bool
  | .constant c => c.isTrue
  | .tuple r => !(h.tuple r).isEmpty
  | .list r => !(h.list r).isEmpty
  | .dict r => !(h.dict r).isEmpty
  | _ => true

end Heap

end StagedScript
