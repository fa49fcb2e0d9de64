import StagedScript.Value.Datum

/-!
# Combinations of arguments

A registered function is called with every combination that its arguments
describe.  Without a tuple among them each argument is a combination of its
own; otherwise each is a dimension, a tuple with its items as candidates, and
the first dimension varies slowest.
-/

namespace StagedScript.Staging

/-- The arguments of one call. -/
inductive ArgKey (α : Type)
  /-- The only argument. -/
  | single (value : α)
  /-- One value for each dimension. -/
  | tuple (values : List α)
  deriving Repr, DecidableEq

namespace ArgKey

def values {α : Type} : ArgKey α → List α
  | single value => [value]
  | tuple values => values

def map {α β : Type} (f : α → β) : ArgKey α → ArgKey β
  | single value => .single (f value)
  | tuple values => .tuple (values.map f)

@[simp]
theorem values_map {α β : Type} (f : α → β) (key : ArgKey α) :
    (key.map f).values = key.values.map f := by
  cases key <;> rfl

/-- Whether two keys have the same form and equal arguments. -/
def equal {α : Type} (same : α → α → Bool) : ArgKey α → ArgKey α → Bool
  | single a, single b => same a b
  | tuple as, tuple bs => as.isEqv bs same
  | _, _ => false

theorem equal_map {α β : Type} (f : α → β) (same : β → β → Bool) (a b : ArgKey α) :
    (a.map f).equal same (b.map f) = a.equal (fun x y => same (f x) (f y)) b := by
  have isEqv_map (xs ys : List α) :
      (xs.map f).isEqv (ys.map f) same = xs.isEqv ys fun x y => same (f x) (f y) := by
    induction xs generalizing ys with
    | nil => cases ys <;> rfl
    | cons x xs ih => cases ys <;> simp [List.isEqv, ih]
  cases a <;> cases b <;> simp [map, equal, isEqv_map]

/-- The written form of the argument, or of the tuple of arguments. -/
def text : ArgKey Datum → String
  | single value => value.repr
  | tuple values => Datum.tupleText (Datum.reprItems values)

end ArgKey

/-- An expansion that is under way. -/
structure Expansion (α : Type) where
  /-- The candidates that are chosen for the next combination. -/
  current : Array α := #[]
  /-- The combinations that are complete. -/
  out : Array (ArgKey α) := #[]

namespace Expansion

def push {α : Type} (e : Expansion α) (candidate : α) : Expansion α :=
  { e with current := e.current.push candidate }

def pop {α : Type} (e : Expansion α) : Expansion α :=
  { e with current := e.current.pop }

/-- Makes the chosen candidates a combination. -/
def complete {α : Type} (e : Expansion α) : Expansion α :=
  { e with out := e.out.push (.tuple e.current.toList) }

end Expansion

/-- Adds the combinations that begin with the chosen candidates.  A candidate is chosen as long as
combinations with it are added, so that the first dimension varies slowest. -/
def addProduct {α : Type} : List (List α) → StateM (Expansion α) Unit
  | [] => modify (·.complete)
  | candidates :: dimensions =>
    candidates.forM fun candidate => do
      modify (·.push candidate)
      addProduct dimensions
      modify (·.pop)

/-- The combinations that arguments describe, where `items?` gives the items of a tuple. -/
def expand {α : Type} (items? : α → Option (List α)) (args : List α) : List (ArgKey α) :=
  if args.isEmpty then []
  else if args.all fun arg => (items? arg).isNone then args.map .single
  else
    let dimensions := args.map fun arg => (items? arg).getD [arg]
    ((addProduct dimensions).run {}).2.out.toList

end StagedScript.Staging
