import StagedScript.Staging.Expansion
import StagedScript.Value.Comparison

/-!
# The table of results

What the registered functions returned, by function and arguments, in the
order of evaluation.
-/

namespace StagedScript.Staging

/-- What the arguments of a call write, where `writes` is what a value does. -/
def ArgKey.hashWrites {α : Type} (writes : α → List HashWrite) : ArgKey α → List HashWrite
  | .single value => .kind 0 :: writes value
  | .tuple values => .kind 1 :: .length values.length :: values.flatMap writes

theorem ArgKey.hashWrites_map {α β : Type} (f : α → β) (writes : β → List HashWrite)
    (key : ArgKey α) :
    (key.map f).hashWrites writes = key.hashWrites fun value => writes (f value) := by
  cases key <;> simp [map, hashWrites, List.flatMap_map]

/-- What a result is the result of. -/
inductive ResultKey (α : Type)
  /-- A function without arguments. -/
  | whole (function : String)
  | variant (function : String) (args : ArgKey α)
  deriving Repr, DecidableEq

namespace ResultKey

def function {α : Type} : ResultKey α → String
  | whole name | variant name _ => name

def args? {α : Type} : ResultKey α → Option (ArgKey α)
  | whole _ => none
  | variant _ args => some args

def map {α β : Type} (f : α → β) : ResultKey α → ResultKey β
  | whole name => .whole name
  | variant name args => .variant name (args.map f)

def hashWrites {α : Type} (writes : α → List HashWrite) : ResultKey α → List HashWrite
  | whole name => [.kind 0, .text name]
  | variant name args => .kind 1 :: .text name :: args.hashWrites writes

theorem hashWrites_map {α β : Type} (f : α → β) (writes : β → List HashWrite)
    (key : ResultKey α) :
    (key.map f).hashWrites writes = key.hashWrites fun value => writes (f value) := by
  cases key <;> simp [map, hashWrites, ArgKey.hashWrites_map]

/-- Whether two keys are for the same function and equal arguments. -/
def equal {α : Type} (same : α → α → Bool) : ResultKey α → ResultKey α → Bool
  | whole f, whole g => f == g
  | variant f args, variant g others => f == g && args.equal same others
  | _, _ => false

theorem equal_map {α β : Type} (f : α → β) (same : β → β → Bool) (a b : ResultKey α) :
    (a.map f).equal same (b.map f) = a.equal (fun x y => same (f x) (f y)) b := by
  cases a <;> cases b <;> simp [map, equal, ArgKey.equal_map]

/-- How keys are hashed and compared, given how arguments are. -/
def hashing {α : Type} (s : Hashing α) : Hashing (ResultKey α) :=
  ⟨s.digest, hashWrites s.writes, equal s.equal⟩

theorem finds_map {α β : Type} (s : Hashing β) (f : α → β) (a b : ResultKey α) :
    (hashing s).finds (a.map f) (b.map f) = (hashing (s.on f)).finds a b := by
  simp only [Hashing.finds, hashing, hashWrites_map, equal_map]
  rfl

end ResultKey

/-- Results with their keys. -/
abbrev Results (α : Type) := List (ResultKey α × α)

namespace Results

/-- Adds a result.  If the key is found, the result there is replaced at its place. -/
def insert {α : Type} (s : Hashing α) (key : ResultKey α) (value : α) : Results α → Results α
  | [] => [(key, value)]
  | (other, old) :: rest =>
    if (ResultKey.hashing s).finds key other then (other, value) :: rest
    else (other, old) :: insert s key value rest

def view (h : Heap) (results : Results Value) : Results Datum :=
  results.map fun (key, value) => (key.map h.view, h.view value)

/-- Adds a result whose parts lie on a heap. -/
def insertOn (h : Heap) (key : ResultKey Value) (value : Value) (results : Results Value) :
    Results Value :=
  results.insert h.hashing key value

def variants {α : Type} (results : Results α) (function : String) : List (ArgKey α × α) :=
  results.filterMap fun (key, value) =>
    match key with
    | .variant name args => if name = function then some (args, value) else none
    | .whole _ => none

/-- The result of a function without arguments. -/
def whole? {α : Type} (results : Results α) (function : String) : Option α :=
  results.findSome? fun (key, value) =>
    match key with
    | .whole name => if name = function then some value else none
    | .variant _ _ => none

end Results

end StagedScript.Staging
