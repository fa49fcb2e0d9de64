import StagedScript.Proofs.Rewriting.Literal
import StagedScript.Proofs.Staging.Calls
import StagedScript.Proofs.Syntax.PlainPattern

/-!
# Matching patterns

Whether a pattern matches a value, and what it binds then, is a relation with one
rule for each way to match.  A name is bound by the first pattern that matches as
a whole and by no other one: all others only add containers to the heap, such as
the tuple of an exception's arguments.
-/

namespace StagedScript.Evaluation

open Run
open Syntax (ArePlain Case Expr Pattern Stmt)

def items? (h : Heap) : Value → Option (List Value)
  | .tuple r => some (h.tuple r).toList
  | .list r => some (h.list r).toList
  | _ => none

/-- What comes of a pattern: the bindings if it matches, or what interrupts it. -/
abbrev Outcome := EStateM.Result Interrupt Machine (Option Bindings)

namespace Outcome

/-- The pattern matches or is interrupted, so that no other alternative is tried. -/
def Decides : Outcome → Prop
  | .ok none _ => False
  | _ => True

/-- The pattern does not match or is interrupted, so that no other item is looked at. -/
def Stops : Outcome → Prop
  | .ok (some _) _ => False
  | _ => True

end Outcome

section Relation

variable (s : Services) (scope : Scope)

mutual

/-- What comes of matching a value against a pattern. -/
inductive Matches : Machine → Value → Pattern → Outcome → Prop
  | wildcard (m : Machine) (v : Value) : Matches m v .wildcard (.ok (some []) m)
  | capture (m : Machine) (v : Value) (name : String) :
      Matches m v (.capture name) (.ok (some [(name, v)]) m)
  | equal {m m' : Machine} {v w : Value} {e : Expr} (heval : eval s scope e m = .ok w m')
      (hequal : m'.heap.equal w v = true) : Matches m v (.value e) (.ok (some []) m')
  | unequal {m m' : Machine} {v w : Value} {e : Expr} (heval : eval s scope e m = .ok w m')
      (hequal : m'.heap.equal w v = false) : Matches m v (.value e) (.ok none m')
  | interrupted {m m' : Machine} {v : Value} {e : Expr} {i : Interrupt}
      (heval : eval s scope e m = .error i m') : Matches m v (.value e) (.error i m')
  | sequence {m : Machine} {v : Value} {items : List Value} {patterns : List Pattern} {o : Outcome}
      (hitems : items? m.heap v = some items) (hlength : items.length = patterns.length)
      (heach : MatchesEach m items patterns o) : Matches m v (.sequence patterns) o
  | shape {m : Machine} {v : Value} {patterns : List Pattern}
      (hshape : ∀ items, items? m.heap v = some items → items.length ≠ patterns.length) :
      Matches m v (.sequence patterns) (.ok none m)
  | alternative {m m' : Machine} {v : Value} {before after : List Pattern} {p : Pattern}
      {o : Outcome} (hbefore : RefusesEach m v before m') (hp : Matches m' v p o)
      (hdecides : o.Decides) : Matches m v (.alternatives (before ++ p :: after)) o
  | refused {m m' : Machine} {v : Value} {patterns : List Pattern}
      (hall : RefusesEach m v patterns m') : Matches m v (.alternatives patterns) (.ok none m')

/-- What comes of matching items against patterns, one by one. -/
inductive MatchesEach : Machine → List Value → List Pattern → Outcome → Prop
  | nil (m : Machine) : MatchesEach m [] [] (.ok (some []) m)
  | cons {m m' m'' : Machine} {v : Value} {vs : List Value} {p : Pattern} {ps : List Pattern}
      {b b' : Bindings} (hp : Matches m v p (.ok (some b) m'))
      (hps : MatchesEach m' vs ps (.ok (some b') m'')) :
      MatchesEach m (v :: vs) (p :: ps) (.ok (some (b ++ b')) m'')
  | here {m : Machine} {v : Value} {vs : List Value} {p : Pattern} {ps : List Pattern} {o : Outcome}
      (hp : Matches m v p o) (hstops : o.Stops) : MatchesEach m (v :: vs) (p :: ps) o
  | later {m m' : Machine} {v : Value} {vs : List Value} {p : Pattern} {ps : List Pattern}
      {b : Bindings} {o : Outcome} (hp : Matches m v p (.ok (some b) m'))
      (hps : MatchesEach m' vs ps o) (hstops : o.Stops) : MatchesEach m (v :: vs) (p :: ps) o

/-- None of the patterns matches a value. -/
inductive RefusesEach : Machine → Value → List Pattern → Machine → Prop
  | nil (m : Machine) (v : Value) : RefusesEach m v [] m
  | cons {m m' m'' : Machine} {v : Value} {p : Pattern} {ps : List Pattern}
      (hp : Matches m v p (.ok none m')) (hps : RefusesEach m' v ps m'') :
      RefusesEach m v (p :: ps) m''

end

end Relation

/-! ## The relation and the matcher -/

section Matcher

variable {s : Services} {scope : Scope}

/-- What comes of alternatives is what comes of the first one that does not refuse the value. -/
theorem matches_alternatives {m m' : Machine} {v : Value} {p : Pattern} {patterns : List Pattern}
    {o : Outcome} (hp : Matches s scope m v p (.ok none m'))
    (hpatterns : Matches s scope m' v (.alternatives patterns) o) :
    Matches s scope m v (.alternatives (p :: patterns)) o := by
  cases hpatterns with
  | alternative hbefore hp' hdecides => exact .alternative (.cons hp hbefore) hp' hdecides
  | refused hall => exact .refused (.cons hp hall)

theorem equal_run (w v : Value) (m : Machine) : Run.equal w v m = .ok (m.heap.equal w v) m :=
  rfl

/-- The matcher looks at the items of a tuple or a list. -/
theorem accept?_sequence {m : Machine} {v : Value} {items : List Value} {patterns : List Pattern}
    (hitems : items? m.heap v = some items) : accept? s scope v (.sequence patterns) m =
      acceptItems? s scope items patterns m := by
  rw [accept?]
  match v, hitems with
  | .tuple r, hitems | .list r, hitems =>
    rw [← Option.some.inj hitems]
    rfl

/-- A value of another shape is refused. -/
theorem accept?_of_shape {m : Machine} {v : Value} {patterns : List Pattern}
    (hshape : ∀ items, items? m.heap v = some items → items.length ≠ patterns.length) :
    accept? s scope v (.sequence patterns) m = .ok none m := by
  cases hitems : items? m.heap v with
  | some items =>
    rw [accept?_sequence hitems, acceptItems?, if_neg (hshape items hitems)]
    rfl
  | none =>
    rw [accept?]
    cases v with
    | tuple r | list r => cases hitems
    | _ => rfl

-- By recursion on the pattern; the machine is general, since each pattern is tried in the one that
-- the pattern before it left.
mutual

theorem matches_accept? (v : Value) (p : Pattern) (m : Machine) :
    Matches s scope m v p (accept? s scope v p m) := by
  match p with
  | .wildcard =>
    rw [accept?]
    exact .wildcard m v
  | .capture name =>
    rw [accept?]
    exact .capture m v name
  | .value e =>
    rw [accept?]
    cases heval : eval s scope e m with
    | error i m' =>
      rw [bind_of_error heval]
      exact .interrupted heval
    | ok w m' =>
      rw [bind_of_ok heval, bind_of_ok (equal_run w v m')]
      cases hequal : m'.heap.equal w v with
      | true => exact .equal heval hequal
      | false => exact .unequal heval hequal
  | .sequence patterns =>
    by_cases hshape : ∃ items, items? m.heap v = some items ∧ items.length = patterns.length
    · obtain ⟨items, hitems, hlength⟩ := hshape
      rw [accept?_sequence hitems, acceptItems?, if_pos hlength]
      exact .sequence hitems hlength (matchesEach_acceptAll? patterns items hlength m)
    · have hshape (items : List Value) (hitems : items? m.heap v = some items) :
          items.length ≠ patterns.length := fun hlength => hshape ⟨items, hitems, hlength⟩
      rw [accept?_of_shape hshape]
      exact .shape hshape
  | .alternatives patterns =>
    rw [accept?]
    exact matches_acceptFirst? v patterns m

theorem matchesEach_acceptAll? (patterns : List Pattern) (items : List Value)
    (hlength : items.length = patterns.length) (m : Machine) :
    MatchesEach s scope m items patterns (acceptAll? s scope items patterns m) := by
  match patterns, items, hlength with
  | [], [], _ =>
    rw [acceptAll?]
    exact .nil m
  | p :: patterns, v :: items, hlength =>
    have hp := matches_accept? v p m
    rw [acceptAll?, List.headD_cons, List.tail_cons]
    cases haccept : accept? s scope v p m with
    | error i m' =>
      rw [haccept] at hp
      rw [bind_of_error haccept]
      exact .here hp trivial
    | ok first m' =>
      rw [haccept] at hp
      rw [bind_of_ok haccept]
      cases first with
      | none => exact .here hp trivial
      | some b =>
        have hps := matchesEach_acceptAll? patterns items (Nat.succ.inj hlength) m'
        dsimp only
        cases hall : acceptAll? s scope items patterns m' with
        | error i m'' =>
          rw [hall] at hps
          rw [bind_of_error hall]
          exact .later hp hps trivial
        | ok others m'' =>
          rw [hall] at hps
          rw [bind_of_ok hall]
          cases others with
          | none => exact .later hp hps trivial
          | some b' => exact .cons hp hps

theorem matches_acceptFirst? (v : Value) (patterns : List Pattern) (m : Machine) :
    Matches s scope m v (.alternatives patterns) (acceptFirst? s scope v patterns m) := by
  match patterns with
  | [] =>
    rw [acceptFirst?]
    exact .refused (.nil m v)
  | p :: patterns =>
    have hp := matches_accept? v p m
    rw [acceptFirst?]
    cases haccept : accept? s scope v p m with
    | error i m' =>
      rw [haccept] at hp
      rw [bind_of_error haccept]
      exact .alternative (.nil m v) hp trivial
    | ok first m' =>
      rw [haccept] at hp
      rw [bind_of_ok haccept]
      cases first with
      | some b => exact .alternative (.nil m v) hp trivial
      | none => exact matches_alternatives hp (matches_acceptFirst? v patterns m')

end

theorem bind_of_stops {m : Machine} {x : Run (Option Bindings)}
    {f : Option Bindings → Run (Option Bindings)} {o : Outcome} (hx : x m = o) (hstops : o.Stops)
    (hf : f none = pure none) : (x >>= f) m = o := by
  match o, hstops with
  | .error i m', _ => exact bind_of_error hx
  | .ok none m', _ =>
    rw [bind_of_ok hx, hf]
    rfl

theorem bind_of_decides {m : Machine} {x : Run (Option Bindings)}
    {f : Option Bindings → Run (Option Bindings)} {o : Outcome} (hx : x m = o)
    (hdecides : o.Decides) (hf : ∀ b, f (some b) = pure (some b)) : (x >>= f) m = o := by
  match o, hdecides with
  | .error i m', _ => exact bind_of_error hx
  | .ok (some b) m', _ =>
    rw [bind_of_ok hx, hf]
    rfl

-- By recursion on the derivation: refused alternatives leave the matcher with those after them.
mutual

theorem accept?_of_matches {m : Machine} {v : Value} {p : Pattern} {o : Outcome}
    (h : Matches s scope m v p o) : accept? s scope v p m = o := by
  match h with
  | .wildcard _ _ | .capture _ _ _ =>
    rw [accept?]
    rfl
  | .equal heval hequal | .unequal heval hequal =>
    rw [accept?, bind_of_ok heval, bind_of_ok (equal_run _ _ _), hequal]
    rfl
  | .interrupted heval => rw [accept?, bind_of_error heval]
  | .sequence hitems hlength heach =>
    rw [accept?_sequence hitems, acceptItems?, if_pos hlength]
    exact acceptAll?_of_matchesEach heach
  | .shape hshape => exact accept?_of_shape hshape
  | .alternative hbefore hp hdecides =>
    rw [accept?, acceptFirst?_of_refusesEach hbefore, acceptFirst?]
    exact bind_of_decides (accept?_of_matches hp) hdecides fun _ => rfl
  | .refused hall =>
    have hnone := acceptFirst?_of_refusesEach hall []
    rw [List.append_nil] at hnone
    rw [accept?, hnone, acceptFirst?]
    rfl

theorem acceptAll?_of_matchesEach {m : Machine} {items : List Value} {patterns : List Pattern}
    {o : Outcome} (h : MatchesEach s scope m items patterns o) :
    acceptAll? s scope items patterns m = o := by
  match h with
  | .nil _ =>
    rw [acceptAll?]
    rfl
  | .cons hp hps =>
    rw [acceptAll?, List.headD_cons, List.tail_cons, bind_of_ok (accept?_of_matches hp)]
    dsimp only
    rw [bind_of_ok (acceptAll?_of_matchesEach hps)]
    rfl
  | .here hp hstops =>
    rw [acceptAll?, List.headD_cons]
    exact bind_of_stops (accept?_of_matches hp) hstops rfl
  | .later hp hps hstops =>
    rw [acceptAll?, List.headD_cons, List.tail_cons, bind_of_ok (accept?_of_matches hp)]
    exact bind_of_stops (acceptAll?_of_matchesEach hps) hstops rfl

theorem acceptFirst?_of_refusesEach {m m' : Machine} {v : Value} {before : List Pattern}
    (h : RefusesEach s scope m v before m') (after : List Pattern) :
    acceptFirst? s scope v (before ++ after) m = acceptFirst? s scope v after m' := by
  match h with
  | .nil _ _ => rfl
  | .cons hp hps =>
    rw [List.cons_append, acceptFirst?, bind_of_ok (accept?_of_matches hp)]
    exact acceptFirst?_of_refusesEach hps after

end

/-- The relation is what the matcher computes, so that the outcome of a pattern is unique. -/
theorem matches_iff {m : Machine} {v : Value} {p : Pattern} {o : Outcome} :
    Matches s scope m v p o ↔ accept? s scope v p m = o :=
  ⟨accept?_of_matches, fun h => h ▸ matches_accept? v p m⟩

/-- The matcher itself adds the bindings that the relation gives to those it began with, and ends
in the same machine. -/
theorem records_of_matches {m : Machine} {v : Value} {p : Pattern} {o : Outcome}
    (h : Matches s scope m v p o) (before : Bindings) :
    Records before o ((matchPattern s scope v p).run before m) := by
  rw [← accept?_of_matches h]
  exact records_matchPattern v p before m

end Matcher

/-! ## What matching changes -/

/-- However the action ends, it adds containers only. -/
def OnlyAdds {α : Type} (m : Machine) (x : Run α) : Prop :=
  match x m with
  | .ok _ m' | .error _ m' => m.Adds m'

namespace OnlyAdds

variable {α β : Type} {m m' : Machine} {x : Run α}

theorem of_ok {a : α} (h : OnlyAdds m x) (hx : x m = .ok a m') : m.Adds m' := by
  rw [OnlyAdds, hx] at h
  exact h

theorem of_error {i : Interrupt} (h : OnlyAdds m x) (hx : x m = .error i m') : m.Adds m' := by
  rw [OnlyAdds, hx] at h
  exact h

theorem pure (a : α) : OnlyAdds m (Pure.pure a : Run α) :=
  .refl m

theorem fault (f : Fault) : OnlyAdds m (Run.fault f : Run α) :=
  .refl m

theorem bind {f : α → Run β} (hx : OnlyAdds m x) (hf : ∀ a m', OnlyAdds m' (f a)) :
    OnlyAdds m (x >>= f) := by
  rw [OnlyAdds]
  cases hrun : x m with
  | error i m' =>
    rw [bind_of_error hrun]
    exact hx.of_error hrun
  | ok a m' =>
    rw [bind_of_ok hrun]
    have hfirst := hx.of_ok hrun
    cases hrest : f a m' with
    | error i m'' => exact hfirst.trans ((hf a m').of_error hrest)
    | ok b m'' => exact hfirst.trans ((hf a m').of_ok hrest)

theorem getHeap : OnlyAdds m Run.getHeap :=
  .refl m

theorem newTuple (items : Array Value) : OnlyAdds m (Run.newTuple items) :=
  .addTuple m items

theorem member (v : Value) (field : String) : OnlyAdds m (Run.member v field) := by
  rw [Run.member]
  refine bind getHeap fun heap m' => ?_
  split
  · split
    · exact pure _
    · exact fault _
  · split
    · exact pure _
    · exact fault _
  · split
    · exact pure _
    · exact fault _
  · split
    · exact newTuple _
    · exact fault _
  · split
    · exact pure _
    · exact fault _

theorem equal (v w : Value) : OnlyAdds m (Run.equal v w) :=
  .refl m

theorem nameValue (scope : Scope) (name : String) :
    OnlyAdds m (Evaluation.nameValue scope name) := by
  rw [Evaluation.nameValue]
  refine bind getHeap fun heap m' => ?_
  split
  · exact pure _
  · split
    · exact pure _
    · exact fault _

end OnlyAdds

section Effects

variable {s : Services} {scope : Scope}

/-- Evaluating a constant, or a name and its fields, adds containers only. -/
theorem onlyAdds_eval {e : Expr} (he : e.IsPath) (m : Machine) : OnlyAdds m (eval s scope e) := by
  match e, he with
  | .constant c _, _ =>
    rw [eval]
    exact .pure _
  | .name id _, _ =>
    rw [eval]
    exact .nameValue scope id
  | .member target field _, he =>
    have htarget : target.IsPath := he
    rw [eval]
    exact .bind (onlyAdds_eval htarget m) fun v _ => .member v field

mutual

theorem onlyAdds_accept? (v : Value) (p : Pattern) (hp : p.IsPlain) (m : Machine) :
    OnlyAdds m (accept? s scope v p) := by
  match p, hp with
  | .wildcard, _ | .capture _, _ =>
    rw [accept?]
    exact .pure _
  | .value e, hp =>
    rw [accept?]
    exact .bind (onlyAdds_eval hp m) fun w _ => .bind (.equal w v) fun _ _ => .pure _
  | .sequence patterns, hp =>
    have hitems (items : List Value) (m' : Machine) :
        OnlyAdds m' (acceptItems? s scope items patterns) := by
      rw [acceptItems?]
      split
      · exact onlyAdds_acceptAll? items patterns hp m'
      · exact .pure _
    rw [accept?]
    refine .bind .getHeap fun heap m' => ?_
    split
    · exact hitems _ m'
    · exact hitems _ m'
    · exact .pure _
  | .alternatives patterns, hp =>
    rw [accept?]
    exact onlyAdds_acceptFirst? v patterns hp m

theorem onlyAdds_acceptAll? (items : List Value) (patterns : List Pattern)
    (hpatterns : ArePlain patterns) (m : Machine) :
    OnlyAdds m (acceptAll? s scope items patterns) := by
  match patterns, hpatterns with
  | [], _ =>
    rw [acceptAll?]
    exact .pure _
  | p :: patterns, hpatterns =>
    rw [acceptAll?]
    refine .bind (onlyAdds_accept? _ p hpatterns.1 m) fun first m' => ?_
    split
    · exact .pure _
    · refine .bind (onlyAdds_acceptAll? _ patterns hpatterns.2 m') fun others m'' => ?_
      split <;> exact .pure _

theorem onlyAdds_acceptFirst? (v : Value) (patterns : List Pattern)
    (hpatterns : ArePlain patterns) (m : Machine) :
    OnlyAdds m (acceptFirst? s scope v patterns) := by
  match patterns, hpatterns with
  | [], _ =>
    rw [acceptFirst?]
    exact .pure _
  | p :: patterns, hpatterns =>
    rw [acceptFirst?]
    refine .bind (onlyAdds_accept? v p hpatterns.1 m) fun first m' => ?_
    split
    · exact .pure _
    · exact onlyAdds_acceptFirst? v patterns hpatterns.2 m'

end

end Effects

/-! ## Binding names -/

/-- Gives names in a scope their values, in order. -/
def setNames (h : Heap) (r : Ref .frame) (b : Bindings) : Heap :=
  b.foldl (fun h e => h.setName r e.1 e.2) h

def setAll (frame b : Bindings) : Bindings :=
  b.foldl (fun frame e => frame.set e.1 e.2) frame

/-- The last value that a name is given is the one it has. -/
theorem get?_setAll (frame b : Bindings) (name : String) :
    (setAll frame b).get? name = (b.reverse.lookup name).or (frame.get? name) := by
  induction b generalizing frame with
  | nil => rfl
  | cons e b ih =>
    obtain ⟨n, v⟩ := e
    rw [setAll, List.foldl_cons, ← setAll, ih, Bindings.get?_set, List.reverse_cons,
      List.lookup_append, Option.or_assoc]
    congr 1
    by_cases hname : name = n
    · simp [hname]
    · simp [List.lookup_cons, hname, beq_eq_false_iff_ne.mpr hname]

theorem frame_setNames (h : Heap) (r other : Ref .frame) (b : Bindings)
    (hr : r.index < h.frames.size) :
    (setNames h r b).frame other = if other = r then setAll (h.frame r) b else h.frame other := by
  induction b generalizing h with
  | nil =>
    split
    · next heq => rw [heq]; rfl
    · rfl
  | cons e b ih =>
    have hsize : r.index < (h.setName r e.1 e.2).frames.size := by
      simpa [Heap.setName] using hr
    rw [setNames, List.foldl_cons, ← setNames, ih _ hsize, Heap.frame_setName h r r e.1 e.2 hr,
      Heap.frame_setName h r other e.1 e.2 hr, if_pos rfl]
    split <;> rfl

theorem setNames_eq (h : Heap) (r : Ref .frame) (b : Bindings) :
    setNames h r b = { h with frames := (setNames h r b).frames } := by
  induction b generalizing h with
  | nil => rfl
  | cons e b ih =>
    rw [setNames, List.foldl_cons, ← setNames, ih]
    rfl

theorem bindAll_ok (r : Ref .frame) (outer : Scope) (b : Bindings) (m : Machine) :
    bindAll (r :: outer) b m = .ok () { m with heap := setNames m.heap r b } := by
  induction b generalizing m with
  | nil => rfl
  | cons e b ih =>
    have hfirst : Run.bind (r :: outer) e.1 e.2 m =
        .ok () { m with heap := m.heap.setName r e.1 e.2 } := rfl
    change (Run.bind (r :: outer) e.1 e.2 >>= fun _ => bindAll (r :: outer) b) m = _
    rw [bind_of_ok hfirst]
    exact ih _

/-- The second machine has the names of the bindings in a scope, each with the last value that it
is given, and more containers.  Apart from this it is the first one. -/
structure Commits (r : Ref .frame) (b : Bindings) (m m' : Machine) : Prop where
  frame : m'.heap.frame r = setAll (m.heap.frame r) b
  value : ∀ name, (m'.heap.frame r).get? name =
    (b.reverse.lookup name).or ((m.heap.frame r).get? name)
  others : ∀ other, other ≠ r → m'.heap.frame other = m.heap.frame other
  rest : m.Adds { m' with heap := { m'.heap with frames := m.heap.frames } }

theorem Commits.of_adds {r : Ref .frame} {b : Bindings} {m m' m'' : Machine} (hm : m.Adds m')
    (h : Commits r b m' m'') : Commits r b m m'' := by
  have hframe (other : Ref .frame) : m'.heap.frame other = m.heap.frame other := by
    rw [Heap.frame, Heap.frame, hm.frames]
  have hrest := h.rest
  rw [hm.frames] at hrest
  exact ⟨hframe r ▸ h.frame, hframe r ▸ h.value,
    fun other hother => (h.others other hother).trans (hframe other), hm.trans hrest⟩

theorem commits_setNames (m : Machine) {r : Ref .frame} (b : Bindings)
    (hr : r.index < m.heap.frames.size) :
    Commits r b m { m with heap := setNames m.heap r b } := by
  have hbound : (setNames m.heap r b).frame r = setAll (m.heap.frame r) b := by
    rw [frame_setNames _ _ _ _ hr, if_pos rfl]
  refine ⟨hbound, fun name => ?_, fun other hother => ?_, ?_⟩
  · change ((setNames m.heap r b).frame r).get? name = _
    rw [hbound, get?_setAll]
  · change (setNames m.heap r b).frame other = _
    rw [frame_setNames _ _ _ _ hr, if_neg hother]
  · have hheap : { setNames m.heap r b with frames := m.heap.frames } = m.heap := by
      rw [setNames_eq]
    change m.Adds { m with heap := { setNames m.heap r b with frames := m.heap.frames } }
    rw [hheap]
    exact .refl m

/-! ## Match statements -/

/-- How a match statement runs on a value. -/
inductive Selects (s : Services) (scope : Scope) (r : Ref .frame) (m : Machine) (v : Value) :
    List Case → EStateM.Result Interrupt Machine Flow → Prop
  /-- The first pattern that matches is chosen, and the body runs with its bindings. -/
  | chosen {before after : List Case} {p : Pattern} {body : List Stmt} {b : Bindings}
      {m₁ m₂ m₃ : Machine} (hbefore : RefusesEach s scope m v (before.map Case.pattern) m₁)
      (hp : Matches s scope m₁ v p (.ok (some b) m₂)) (hcommits : Commits r b m m₃) :
      Selects s scope r m v (before ++ .on p body :: after) (execBlock s scope body m₃)
  /-- A pattern is interrupted, and no name is bound. -/
  | interrupted {before after : List Case} {p : Pattern} {body : List Stmt} {i : Interrupt}
      {m₁ m₂ : Machine} (hbefore : RefusesEach s scope m v (before.map Case.pattern) m₁)
      (hp : Matches s scope m₁ v p (.error i m₂)) (hadds : m.Adds m₂) :
      Selects s scope r m v (before ++ .on p body :: after) (.error i m₂)
  /-- No pattern matches, and no name is bound. -/
  | unmatched {cases : List Case} {m₁ : Machine}
      (hcases : RefusesEach s scope m v (cases.map Case.pattern) m₁) (hadds : m.Adds m₁) :
      Selects s scope r m v cases (.ok .normal m₁)

section Statements

variable {s : Services} {scope outer : Scope} {r : Ref .frame}

/-- A case that is refused first makes no difference to what is chosen. -/
theorem Selects.refuse {m m' : Machine} {v : Value} {p : Pattern} {body : List Stmt}
    {cases : List Case} {o : EStateM.Result Interrupt Machine Flow}
    (hp : Matches s scope m v p (.ok none m')) (hm : m.Adds m')
    (h : Selects s scope r m' v cases o) : Selects s scope r m v (.on p body :: cases) o := by
  cases h with
  | @chosen before after q _ b m₁ m₂ m₃ hbefore hq hcommits =>
    have hbefore' : RefusesEach s scope m v ((.on p body :: before).map Case.pattern) m₁ :=
      .cons hp hbefore
    exact .chosen hbefore' hq (hcommits.of_adds hm)
  | @interrupted before after q _ i m₁ m₂ hbefore hq hadds =>
    have hbefore' : RefusesEach s scope m v ((.on p body :: before).map Case.pattern) m₁ :=
      .cons hp hbefore
    exact .interrupted hbefore' hq (hm.trans hadds)
  | unmatched hcases hadds => exact .unmatched (.cons hp hcases) (hm.trans hadds)

theorem selects_execCases {v : Value} {cases : List Case} {m : Machine}
    (hr : r.index < m.heap.frames.size) (hcases : ArePlain (cases.map Case.pattern)) :
    Selects s (r :: outer) r m v cases (execCases s (r :: outer) v cases m) := by
  induction cases generalizing m with
  | nil =>
    rw [execCases]
    exact .unmatched (.nil m v) (.refl m)
  | cons c cases ih =>
    obtain ⟨p, body⟩ := c
    have hp : Matches s (r :: outer) m v p _ := matches_accept? v p m
    have hadds : OnlyAdds m (accept? s (r :: outer) v p) := onlyAdds_accept? v p hcases.1 m
    have hnone : RefusesEach s (r :: outer) m v (([] : List Case).map Case.pattern) m := .nil m v
    rw [execCases_cons]
    cases haccept : accept? s (r :: outer) v p m with
    | error i m' =>
      rw [haccept] at hp
      rw [bind_of_error haccept]
      exact .interrupted hnone hp (hadds.of_error haccept)
    | ok accepted m' =>
      rw [haccept] at hp
      rw [bind_of_ok haccept]
      have hm := hadds.of_ok haccept
      have hr' : r.index < m'.heap.frames.size := hm.frames ▸ hr
      cases accepted with
      -- What the refused pattern would have bound is not part of the machine that it leaves.
      | none => exact .refuse hp hm (ih hr' hcases.2)
      | some b =>
        dsimp only
        rw [bind_of_ok (bindAll_ok r outer b m')]
        exact .chosen hnone hp ((commits_setNames m' b hr').of_adds hm)

/-- A match statement that is read chooses the first case whose pattern matches, and binds what
this pattern binds and nothing else. -/
theorem match_commits_first_match {subject : Expr} {cases : List Case} {span : Text.Span}
    {m₀ m : Machine} {v : Value} (hread : (Stmt.matchOn subject cases span).IsReadMatch)
    (hsubject : eval s (r :: outer) subject m₀ = .ok v m) (hr : r.index < m.heap.frames.size) :
    Selects s (r :: outer) r m v cases
      (exec s (r :: outer) (.matchOn subject cases span) m₀) := by
  rw [exec, bind_of_ok hsubject]
  exact selects_execCases hr hread.arePlain

end Statements

/-! ### A name that is bound twice -/

/-- The tokens of `1, 2:` with the cases `(a, 3)` and `(x, x)`, after the first word. -/
def pairTokens : List Syntax.Token :=
  let case (items : List Syntax.Lexeme) : List Syntax.Lexeme :=
    .keyword .caseKw :: .symbol .leftParen :: items ++
      [.symbol .rightParen, .symbol .colon, .keyword .passKw, .newline]
  let kinds : List Syntax.Lexeme :=
    [.integer 1, .symbol .comma, .integer 2, .symbol .colon, .newline, .indent] ++
      case [.identifier "a", .symbol .comma, .integer 3] ++
      case [.identifier "x", .symbol .comma, .identifier "x"] ++ [.dedent, .eof]
  kinds.map fun kind => ⟨kind, .synthetic⟩

/-- The subject `1, 2`. -/
def pairSubject : Expr :=
  .tuple [.constant (.int 1) .synthetic, .constant (.int 2) .synthetic] .synthetic

/-- The cases `(a, 3)` and `(x, x)`, which do nothing. -/
def pairCases : List Case :=
  [.on (.sequence [.capture "a", .value (.constant (.int 3) .synthetic)]) [.pass],
    .on (.sequence [.capture "x", .capture "x"]) [.pass]]

theorem isReadMatch_pair : (Stmt.matchOn pairSubject pairCases .synthetic).IsReadMatch :=
  ⟨Syntax.Parser.exprParsers 1, Syntax.Parser.stmtWithin (Syntax.Parser.exprParsers 1) 1,
    .synthetic, 30, pairTokens, [⟨.eof, .synthetic⟩], rfl⟩

/-- Services of a program without calls, imports and loops. -/
def noServices : Services where
  call _ _ := throw .exhausted
  load _ := throw .exhausted
  rounds := 0

/-- A machine with the tuple `(1, 2)` and a scope with the given variables. -/
def pairMachine (frame : Bindings) : Machine where
  heap :=
    { tuples := #[#[.constant (.int 1), .constant (.int 2)]]
      frames := #[frame] }

theorem pair_binds_last_item :
    let run := exec noServices [⟨0⟩] (.matchOn pairSubject pairCases .synthetic)
      { heap := { frames := #[[]] } }
    Selects noServices [⟨0⟩] ⟨0⟩ (pairMachine []) (.tuple ⟨0⟩) pairCases run ∧
      run = .ok .normal (pairMachine [("x", .constant (.int 2))]) := by
  have hsubject : eval noServices [⟨0⟩] pairSubject { heap := { frames := #[[]] } } =
      .ok (.tuple ⟨0⟩) (pairMachine []) := rfl
  refine ⟨match_commits_first_match isReadMatch_pair hsubject (by decide), ?_⟩
  rw [exec, bind_of_ok hsubject]
  simp only [pairCases, execCases_cons, accept?, acceptItems?, acceptAll?]
  rfl

end StagedScript.Evaluation
