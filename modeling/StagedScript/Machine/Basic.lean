import StagedScript.Module.Cache
import StagedScript.Staging.Registration
import StagedScript.Value.Heap

/-!
# The machine

The state in which programs run, and the actions on it.  What an action changed
stays changed if it raises an exception.
-/

namespace StagedScript

/-- The state of a running program. -/
structure Machine where
  heap : Heap := {}
  files : FileTree := {}
  modules : ModuleCache := {}
  registrations : Registrations := []
  /-- The printed lines. -/
  output : Array String := #[]
  /-- How many calls of functions of the program are active. -/
  depth : Nat := 0
  /-- How many of them were active at once so far. -/
  peak : Nat := 0
  /-- Whether code is being evaluated ahead of time. -/
  ahead : Bool := false

/-- A machine that sees the files and looks for modules on the paths. -/
def Machine.ofPaths (files : FileTree) (paths : List String) (digest : Digest := .standard) :
    Machine :=
  { heap := { digest := digest }, files := files, modules := .ofPaths paths }

def Machine.enterCall (m : Machine) : Machine :=
  { m with depth := m.depth + 1, peak := max m.peak (m.depth + 1) }

def Machine.leaveCall (m : Machine) : Machine :=
  { m with depth := m.depth - 1 }

/-- Why an action has no result. -/
inductive Interrupt
  | raised (e : Exception)
  /-- The step budget ran out. -/
  | exhausted
  deriving Repr, DecidableEq

/-- An action on the machine. -/
abbrev Run := EStateM Interrupt Machine

namespace Run

def raise {α : Type} (e : Exception) : Run α :=
  throw (.raised e)

/-- Raises the exception of a fault. -/
def fault {α : Type} (f : Fault) : Run α :=
  raise f.exception

/-- The value of a computation that may be at fault. -/
def ofExcept {α : Type} : Except Fault α → Run α
  | .ok a => pure a
  | .error f => fault f

def getHeap : Run Heap := do
  return (← get).heap

def modifyHeap (f : Heap → Heap) : Run Unit :=
  modify fun m => { m with heap := f m.heap }

/-- Changes the heap and gives what the change brings, such as a reference to what was added. -/
def changeHeap {α : Type} (change : Heap → α × Heap) : Run α :=
  modifyGet fun m =>
    let (a, heap) := change m.heap
    (a, { m with heap := heap })

def newTuple (items : Array Value) : Run Value := do
  return .tuple (← changeHeap (·.addTuple items))

def newList (items : Array Value) : Run Value := do
  return .list (← changeHeap (·.addList items))

def newDict (entries : Array (Value × Value)) : Run Value := do
  return .dict (← changeHeap (·.addDict entries))

def view (v : Value) : Run Datum := do
  return (← getHeap).view v

def isTrue (v : Value) : Run Bool := do
  return (← getHeap).isTrue v

def print (line : String) : Run Unit :=
  modify fun m => { m with output := m.output.push line }

/-- Gives a name a value in the innermost scope. -/
def bind (scope : Scope) (name : String) (value : Value) : Run Unit :=
  match scope with
  | innermost :: _ => modifyHeap (·.setName innermost name value)
  | [] => pure ()

/-- Runs an action in a changed machine and takes the change back at its end, whether or not it
has a result. -/
def bracket {α : Type} (enter leave : Machine → Machine) (action : Run α) : Run α := fun m =>
  match action (enter m) with
  | .ok a m => .ok a (leave m)
  | .error e m => .error e (leave m)

variable {α β : Type} {m m' : Machine}

theorem bind_ok {x : Run α} {f : α → Run β} {b : β}
    (h : (x >>= f) m = .ok b m') : ∃ a m₁, x m = .ok a m₁ ∧ f a m₁ = .ok b m' := by
  change EStateM.bind x f m = .ok b m' at h
  unfold EStateM.bind at h
  cases hx : x m with
  | ok a m₁ =>
    rw [hx] at h
    exact ⟨a, m₁, rfl, h⟩
  | error e m₁ =>
    rw [hx] at h
    cases h

theorem bind_of_ok {x : Run α} {f : α → Run β} {a : α} (h : x m = .ok a m') :
    (x >>= f) m = f a m' := by
  change EStateM.bind x f m = f a m'
  rw [EStateM.bind, h]

theorem bind_of_error {x : Run α} {f : α → Run β} {interrupt : Interrupt}
    (h : x m = .error interrupt m') : (x >>= f) m = .error interrupt m' := by
  change EStateM.bind x f m = .error interrupt m'
  rw [EStateM.bind, h]

theorem pure_ok {a b : α} (h : (pure a : Run α) m = .ok b m') : a = b ∧ m = m' := by
  cases h
  exact ⟨rfl, rfl⟩

theorem getHeap_ok (m : Machine) : Run.getHeap m = .ok m.heap m :=
  rfl

theorem view_ok (v : Value) (m : Machine) : Run.view v m = .ok (m.heap.view v) m :=
  rfl

end Run

end StagedScript
