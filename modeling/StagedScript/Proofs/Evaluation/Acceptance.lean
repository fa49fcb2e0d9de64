import StagedScript.Evaluation.Statement

/-!
# What a pattern binds

The matcher pushes bindings as it meets names, and leaves them there if a later
part does not match.  What it pushed up to then is never looked at: the matcher
ends like one that gives the bindings of a pattern that matches as a whole, and
nothing else.
-/

namespace StagedScript.Evaluation

open Run
open Syntax (Block Case Pattern)

mutual

/-- What a pattern binds if it accepts a value. -/
def accept? (s : Services) (scope : Scope) (subject : Value) : Pattern → Run (Option Bindings)
  | .wildcard => return some []
  | .capture name => return some [(name, subject)]
  | .value e => do
    let value ← eval s scope e
    return if ← equal value subject then some [] else none
  | .sequence patterns => do
    let heap ← getHeap
    match subject with
    | .tuple r => acceptItems? s scope (heap.tuple r).toList patterns
    | .list r => acceptItems? s scope (heap.list r).toList patterns
    | _ => return none
  | .alternatives patterns => acceptFirst? s scope subject patterns

/-- What patterns bind if each accepts its item and there are as many of them as items. -/
def acceptItems? (s : Services) (scope : Scope) (items : List Value) (patterns : List Pattern) :
    Run (Option Bindings) :=
  if items.length = patterns.length then acceptAll? s scope items patterns else return none

/-- What patterns bind if each accepts its item. -/
def acceptAll? (s : Services) (scope : Scope) (items : List Value) :
    List Pattern → Run (Option Bindings)
  | [] => return some []
  | pattern :: patterns => do
    match ← accept? s scope (items.headD .none) pattern with
    | none => return none
    | some first =>
      match ← acceptAll? s scope items.tail patterns with
      | none => return none
      | some others => return some (first ++ others)

/-- What the first pattern binds that accepts a value. -/
def acceptFirst? (s : Services) (scope : Scope) (subject : Value) :
    List Pattern → Run (Option Bindings)
  | [] => return none
  | pattern :: patterns => do
    match ← accept? s scope subject pattern with
    | some bindings => return some bindings
    | none => acceptFirst? s scope subject patterns

end

variable {s : Services} {scope : Scope}

/-- The matcher, which began with the given bindings, ends like the optional bindings: it adds them
if there are any, and leaves some bindings behind if there are none. -/
inductive Records (before : Bindings) : EStateM.Result Interrupt Machine (Option Bindings) →
    EStateM.Result Interrupt Machine (Bool × Bindings) → Prop
  | matched (b : Bindings) (m : Machine) :
      Records before (.ok (some b) m) (.ok (true, before ++ b) m)
  | refused (rest : Bindings) (m : Machine) :
      Records before (.ok none m) (.ok (false, before ++ rest) m)
  | interrupted (i : Interrupt) (m : Machine) : Records before (.error i m) (.error i m)

/-- An action that matching runs leaves the bindings as they are. -/
theorem run_lift_bind {α β : Type} (x : Run α) (f : α → Matcher β) (before : Bindings) :
    (liftM x >>= f : Matcher β).run before = x >>= fun a => (f a).run before := by
  simp

namespace Records

variable {before : Bindings} {m : Machine} {x : Run (Option Bindings)} {y : Matcher Bool}

theorem nothing (before : Bindings) (m : Machine) :
    Records before (.ok (some []) m) (.ok (true, before) m) := by
  have hmatched : Records before _ _ := matched [] m
  rwa [List.append_nil] at hmatched

theorem none (before : Bindings) (m : Machine) :
    Records before (.ok Option.none m) (.ok (false, before) m) := by
  have hrefused : Records before _ _ := refused [] m
  rwa [List.append_nil] at hrefused

/-- What is recorded after a part that matches comes after what that part records. -/
theorem bind {f : Option Bindings → Run (Option Bindings)} {g : Bool → Matcher Bool}
    (hxy : Records before (x m) (y.run before m)) (hnone : f Option.none = pure Option.none)
    (hfalse : g false = pure false)
    (htrue : ∀ b m', Records before (f (some b) m') ((g true).run (before ++ b) m')) :
    Records before ((x >>= f) m) ((y >>= g).run before m) := by
  rw [StateT.run_bind]
  generalize hx : x m = o at hxy
  generalize hy : y.run before m = o' at hxy
  cases hxy with
  | matched b m' =>
    rw [bind_of_ok hx, bind_of_ok hy]
    exact htrue b m'
  | refused rest m' =>
    rw [bind_of_ok hx, bind_of_ok hy, hnone, hfalse]
    exact .refused rest m'
  | interrupted i m' =>
    rw [bind_of_error hx, bind_of_error hy]
    exact .interrupted i m'

/-- Bindings in front can be counted among those that are recorded. -/
theorem prepend {b : Bindings} (h : Records (before ++ b) (x m) (y.run (before ++ b) m)) :
    Records before ((do
        match ← x with
        | Option.none => return Option.none
        | some others => return some (b ++ others) : Run (Option Bindings)) m)
      (y.run (before ++ b) m) := by
  generalize hx : x m = o at h
  generalize y.run (before ++ b) m = o' at h
  cases h with
  | matched others m' =>
    rw [bind_of_ok hx, List.append_assoc]
    exact .matched (b ++ others) m'
  | refused rest m' =>
    rw [bind_of_ok hx, List.append_assoc]
    exact .refused (b ++ rest) m'
  | interrupted i m' =>
    rw [bind_of_error hx]
    exact .interrupted i m'

end Records

-- By recursion on the pattern, for any bindings before it.
mutual

/-- The matcher records what the pattern binds if it accepts the value. -/
theorem records_matchPattern (v : Value) (p : Pattern) (before : Bindings) (m : Machine) :
    Records before (accept? s scope v p m) ((matchPattern s scope v p).run before m) := by
  match p with
  | .wildcard =>
    rw [accept?, matchPattern]
    exact .nothing before m
  | .capture name =>
    rw [accept?, matchPattern]
    exact .matched [(name, v)] m
  | .value e =>
    rw [accept?, matchPattern, run_lift_bind]
    cases heval : eval s scope e m with
    | error i m' =>
      rw [bind_of_error heval, bind_of_error heval]
      exact .interrupted i m'
    | ok w m' =>
      rw [bind_of_ok heval, bind_of_ok heval]
      change Records before (.ok (if m'.heap.equal w v then some [] else none) m')
        (.ok (m'.heap.equal w v, before) m')
      cases m'.heap.equal w v with
      | true => exact .nothing before m'
      | false => exact .none before m'
  | .sequence patterns =>
    have hitems (items : List Value) : Records before (acceptItems? s scope items patterns m)
        ((matchItems s scope items patterns).run before m) := by
      rw [acceptItems?, matchItems]
      split
      · next hlength => exact records_matchAll items patterns hlength before m
      · exact .none before m
    rw [accept?, matchPattern]
    cases v with
    | tuple r => exact hitems (m.heap.tuple r).toList
    | list r => exact hitems (m.heap.list r).toList
    | _ => exact .none before m
  | .alternatives patterns =>
    rw [accept?, matchPattern]
    exact records_matchFirst v patterns before m

theorem records_matchAll (items : List Value) (patterns : List Pattern)
    (hlength : items.length = patterns.length) (before : Bindings) (m : Machine) :
    Records before (acceptAll? s scope items patterns m)
      ((matchAll s scope items patterns).run before m) := by
  match items, patterns, hlength with
  | [], [], _ =>
    rw [acceptAll?, matchAll]
    · exact .nothing before m
    · nofun
  | v :: items, p :: patterns, hlength =>
    rw [acceptAll?, matchAll, List.headD_cons, List.tail_cons]
    refine (records_matchPattern v p before m).bind rfl rfl fun b m' => ?_
    exact (records_matchAll items patterns (Nat.succ.inj hlength) (before ++ b) m').prepend

theorem records_matchFirst (v : Value) (patterns : List Pattern) (before : Bindings)
    (m : Machine) : Records before (acceptFirst? s scope v patterns m)
      ((matchFirst s scope v patterns).run before m) := by
  match patterns with
  | [] =>
    rw [acceptFirst?, matchFirst]
    exact .none before m
  | p :: patterns =>
    have hp : Records [] (accept? s scope v p m) _ := records_matchPattern v p [] m
    rw [acceptFirst?, matchFirst, run_lift_bind]
    generalize hx : accept? s scope v p m = o at hp
    generalize hy : (matchPattern s scope v p).run [] m = o' at hp
    cases hp with
    | matched b m' =>
      rw [bind_of_ok hx, bind_of_ok hy]
      exact .matched b m'
    | refused rest m' =>
      -- What the alternative pushed is in bindings of its own, which end here.
      rw [bind_of_ok hx, bind_of_ok hy]
      exact records_matchFirst v patterns before m'
    | interrupted i m' =>
      rw [bind_of_error hx, bind_of_error hy]
      exact .interrupted i m'

end

/-- A case is chosen by what its pattern binds if it accepts the value. -/
theorem execCases_cons (v : Value) (p : Pattern) (body : Block) (cases : List Case) :
    execCases s scope v (.on p body :: cases) = (do
      match ← accept? s scope v p with
      | some bindings =>
        bindAll scope bindings
        execBlock s scope body
      | none => execCases s scope v cases) := by
  funext m
  have hp : Records [] (accept? s scope v p m) _ := records_matchPattern v p [] m
  rw [execCases]
  generalize hx : accept? s scope v p m = o at hp
  generalize hy : (matchPattern s scope v p).run [] m = o' at hp
  cases hp with
  | matched b m' | refused b m' =>
    rw [bind_of_ok hx, bind_of_ok hy]
    rfl
  | interrupted i m' => rw [bind_of_error hx, bind_of_error hy]

end StagedScript.Evaluation
