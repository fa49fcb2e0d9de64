import StagedScript.Proofs.Rewriting.Literal
import StagedScript.Proofs.Staging.Calls
import StagedScript.Rewriting.Body

/-!
# The subject of a generated body

A generated body starts from its parameters: the value of the only one, or a new
tuple of the values of several.  It ends with the literal of a result.
-/

namespace StagedScript

open Evaluation

/-- Containers that were added leave tuples and functions as they were. -/
theorem Machine.Adds.grows {guard : Guard} {m m' : Machine} (h : m.Adds m') :
    m.heap.Grows guard m'.heap where
  tuples := h.heap.tuples
  functions := by rw [h.functions]
  frames := by rw [h.frames]
  guarded := fun r name _ => by rw [Heap.frame, Heap.frame, h.frames]
  digest := h.heap.digest

namespace Rewriting

open Syntax (Expr)
open Run (bind_of_error bind_of_ok getHeap_ok)
open Staging (execBlock_single)

/-- The parameters have the arguments as their values. -/
def Binds (h : Heap) (scope : Scope) (params : List String) (args : List Value) : Prop :=
  List.Forall₂ (fun param arg => h.lookup? scope param = some arg) params args

/-- The value is the only argument, or the tuple of several. -/
inductive IsSubject (h : Heap) : List Value → Value → Prop
  | single (arg : Value) : IsSubject h [arg] arg
  | several {args : List Value} (r : Ref .tuple) (hlength : args.length ≠ 1)
      (hitems : (h.tuple r).toList = args) : IsSubject h args (.tuple r)

variable {s : Services} {scope : Scope} {m : Machine}

theorem Binds.adds {m' : Machine} {params : List String} {args : List Value}
    (h : Binds m.heap scope params args) (hm : m.Adds m') : Binds m'.heap scope params args :=
  h.imp fun param _ hparam => (hm.lookup? scope param).trans hparam

theorem eval_named {name : String} {v : Value} (h : m.heap.lookup? scope name = some v) :
    eval s scope (.named name) m = .ok v m := by
  change nameValue scope name m = _
  rw [nameValue, bind_of_ok (getHeap_ok m), h]
  rfl

theorem evalAll_named {params : List String} {args : List Value}
    (h : Binds m.heap scope params args) :
    evalAll s scope (params.map .named) m = .ok args m := by
  induction h with
  | nil => rfl
  | cons hparam _ ih =>
    rw [List.map_cons, evalAll, bind_of_ok (eval_named hparam), bind_of_ok ih]
    rfl

/-- The subject of a body is made without a change of lists; a tuple is a new container. -/
theorem eval_subject {params : List String} {args : List Value}
    (h : Binds m.heap scope params args) : ∃ v m', eval s scope (subject params) m = .ok v m' ∧
      m.Adds m' ∧ m'.heap.lists = m.heap.lists ∧ IsSubject m'.heap args v ∧
        (args.length ≠ 1 → m'.heap.containers = m.heap.containers + 1) := by
  by_cases hlength : args.length = 1
  · obtain ⟨arg, rfl⟩ := List.length_eq_one_iff.mp hlength
    cases h with
    | cons hparam hrest =>
      cases hrest
      exact ⟨arg, m, eval_named hparam, .refl m, rfl, .single arg, fun hmany => absurd rfl hmany⟩
  · have hsubject : subject params = .tupleOf (params.map .named) := by
      unfold subject
      split
      · exact absurd h.length_eq.symm hlength
      · rfl
    have hitems : ((m.heap.addTuple args.toArray).2.tuple (m.heap.addTuple args.toArray).1).toList =
        args := by simp [Heap.tuple, Heap.addTuple]
    refine ⟨.tuple (m.heap.addTuple args.toArray).1,
      { m with heap := (m.heap.addTuple args.toArray).2 }, ?_, .addTuple m _, rfl,
      .several _ hlength hitems, fun _ => m.heap.containers_addTuple _⟩
    rw [hsubject]
    change (evalAll s scope (params.map .named) >>= fun items => Run.newTuple items.toArray) m = _
    rw [bind_of_ok (evalAll_named h)]
    rfl

theorem execBlock_returning {e : Expr} {v : Value} {m m' : Machine}
    (h : eval s scope e m = .ok v m') :
    execBlock s scope [returning e] m = .ok (.returned v) m' := by
  rw [execBlock_single, returning, exec, bind_of_ok h]
  rfl

theorem execBlock_returning_of_error {e : Expr} {interrupt : Interrupt} {m m' : Machine}
    (h : eval s scope e m = .error interrupt m') :
    execBlock s scope [returning e] m = .error interrupt m' := by
  rw [execBlock_single, returning, exec, bind_of_error h]

/-- A body that returns a literal gives a value with the contents of the datum. -/
theorem execBlock_returning_literal {function : String} {d : Datum} {e : Expr}
    (hliteral : literal function d = .ok e) (hproper : d.Proper) (m : Machine) : ∃ v m',
    execBlock s scope [returning e] m = .ok (.returned v) m' ∧ m.Adds m' ∧
      (m'.heap.view v).contents = d.contents := by
  obtain ⟨hd, rfl⟩ := (literal_eq_ok function d e).mp hliteral
  obtain ⟨v, m', hrun, hadds, hsettled⟩ := builds_literal s scope d hd hproper m
  exact ⟨v, m', execBlock_returning hrun, hadds, hsettled.shows⟩

/-- A machine in which one name has a tuple as its value and another one a truth value. -/
def pairMachine : Machine :=
  { heap :=
      { tuples := #[#[.int 1]]
        frames := #[[("x", .tuple ⟨0⟩), ("y", .bool true)]] } }

theorem sound_pairMachine : pairMachine.heap.Sound Staging.noGuard := by
  have htuple : (({} : Heap).addTuple #[.int 1]).2.Sound Staging.noGuard :=
    Heap.sound_addTuple (Staging.sound_ofPaths {} [] .standard).heap (by simp [Value.Within])
  refine Heap.sound_addFrame htuple fun name v hv => ?_
  obtain ⟨key, hmem⟩ := Bindings.mem_of_get? hv
  simp only [List.mem_cons, Prod.mk.injEq, List.not_mem_nil, or_false] at hmem
  rcases hmem with ⟨-, rfl⟩ | ⟨-, rfl⟩
  · exact Nat.zero_lt_one
  · trivial

end Rewriting

end StagedScript
