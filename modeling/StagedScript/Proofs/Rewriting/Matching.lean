import StagedScript.Proofs.Rewriting.Subject

/-!
# What a matching body does

A body that matches its parameters returns the result of the first variant whose
key accepts the arguments.  If there is none, it raises an exception that lists
the arguments.
-/

namespace StagedScript

namespace Heap

mutual

/-- Whether a key accepts a value: a constant what equals it, a tuple or a list every tuple or list
whose items it accepts one by one. -/
def accepts (h : Heap) : Datum → Value → Bool
  | .constant c, v => h.equal (.constant c) v
  | .tuple _ items, v | .list _ items, v =>
    match v with
    | .tuple r => h.acceptsAll items (h.tuple r).toList
    | .list r => h.acceptsAll items (h.list r).toList
    | _ => false
  | _, _ => false

/-- Whether there are as many values as keys and each key accepts its value. -/
def acceptsAll (h : Heap) : List Datum → List Value → Bool
  | [], [] => true
  | d :: ds, v :: vs => h.accepts d v && h.acceptsAll ds vs
  | _, _ => false

end

variable {guard : Guard} {h h' : Heap}

theorem acceptsAll_of_length_ne {ds : List Datum} {vs : List Value}
    (hlength : vs.length ≠ ds.length) : h.acceptsAll ds vs = false := by
  induction ds generalizing vs with
  | nil =>
    cases vs with
    | nil => exact absurd rfl hlength
    | cons v vs => rfl
  | cons d ds ih =>
    cases vs with
    | nil => rfl
    | cons v vs =>
      rw [acceptsAll, ih fun heq => hlength (congrArg Nat.succ heq), Bool.and_false]

/-- What a constant equals does not depend on the heap. -/
theorem equal_constant (h h' : Heap) (c : Syntax.Constant) (v : Value) :
    h'.equal (.constant c) v = h.equal (.constant c) v := by
  unfold equal
  cases v <;> cases h.containers <;> cases h'.containers <;> rfl

mutual

/-- A key accepts the same values if no list is changed. -/
theorem accepts_grows (hs : h.Sound guard) (hg : h.Grows guard h') (hlists : h'.lists = h.lists)
    (d : Datum) (v : Value) (hv : v.Within guard h.extent) : h'.accepts d v = h.accepts d v := by
  have hlist (r : Ref .list) : h'.list r = h.list r := by rw [list, list, hlists]
  match d with
  | .constant c => exact equal_constant h h' c v
  | .tuple _ items | .list _ items =>
    cases v with
    | tuple r =>
      simp only [accepts, hg.tuple_eq hv]
      exact acceptsAll_grows hs hg hlists items _ fun w hw =>
        hs.tuple_within (Array.mem_toList_iff.mp hw)
    | list r =>
      simp only [accepts, hlist]
      exact acceptsAll_grows hs hg hlists items _ fun w hw =>
        hs.list_within (Array.mem_toList_iff.mp hw)
    | _ => rfl
  | .dict _ _ | .entity _ | .method _ _ | .awaiting _ _ => rfl

theorem acceptsAll_grows (hs : h.Sound guard) (hg : h.Grows guard h')
    (hlists : h'.lists = h.lists) (ds : List Datum) (vs : List Value)
    (hvs : ∀ v ∈ vs, v.Within guard h.extent) : h'.acceptsAll ds vs = h.acceptsAll ds vs := by
  match ds, vs with
  | [], [] | [], _ :: _ | _ :: _, [] => rfl
  | d :: ds, v :: vs =>
    rw [acceptsAll, acceptsAll, accepts_grows hs hg hlists d v (hvs v List.mem_cons_self),
      acceptsAll_grows hs hg hlists ds vs fun w hw => hvs w (List.mem_cons_of_mem _ hw)]

end

end Heap

namespace Rewriting

open Evaluation
open Syntax (Case Expr FormattedPart Pattern)
open Run (bind_of_error bind_of_ok getHeap_ok view_ok)
open Staging (ArgKey execBlock_single)

variable {s : Services} {scope : Scope} {function : String}

/-! ## Patterns of keys -/

theorem length_literalPatterns {ds : List Datum} {ps : List Pattern}
    (h : literalPatterns function ds = .ok ps) : ps.length = ds.length := by
  induction ds generalizing ps with
  | nil =>
    cases h
    rfl
  | cons d ds ih =>
    rw [literalPatterns] at h
    obtain ⟨first, -, h⟩ := exists_of_bind_eq_ok h
    obtain ⟨rest, hrest, h⟩ := exists_of_bind_eq_ok h
    cases h
    exact congrArg Nat.succ (ih hrest)

/-- What a pattern binds that accepts without binding anything. -/
def bindsNothing (accepted : Bool) : Option Bindings :=
  if accepted then some [] else none

/-- Patterns of keys accept items only if there are as many of them. -/
theorem acceptItems?_of_acceptAll? {ds : List Datum} {ps : List Pattern}
    (h : literalPatterns function ds = .ok ps) {vs : List Value} {m : Machine}
    (hall : vs.length = ds.length →
      acceptAll? s scope vs ps m = .ok (bindsNothing (m.heap.acceptsAll ds vs)) m) :
    acceptItems? s scope vs ps m = .ok (bindsNothing (m.heap.acceptsAll ds vs)) m := by
  rw [acceptItems?, length_literalPatterns h]
  split
  · next hlength => exact hall hlength
  · next hlength =>
    rw [Heap.acceptsAll_of_length_ne hlength]
    rfl

mutual

theorem accept?_literalPattern {d : Datum} {p : Pattern}
    (h : literalPattern function d = .ok p) (v : Value) (m : Machine) :
    accept? s scope v p m = .ok (bindsNothing (m.heap.accepts d v)) m := by
  match d with
  | .constant c =>
    rw [literalPattern] at h
    · obtain ⟨e, he, h⟩ := exists_of_bind_eq_ok h
      cases h
      obtain ⟨-, rfl⟩ := (literal_eq_ok function (.constant c) e).mp he
      rw [accept?]
      rfl
    all_goals exact nofun
  | .tuple _ items | .list _ items =>
    rw [literalPattern] at h
    obtain ⟨ps, hps, h⟩ := exists_of_bind_eq_ok h
    cases h
    rw [accept?, bind_of_ok (getHeap_ok m)]
    cases v with
    | tuple r =>
      exact acceptItems?_of_acceptAll? hps fun hlength => acceptAll?_literalPatterns hps hlength m
    | list r =>
      exact acceptItems?_of_acceptAll? hps fun hlength => acceptAll?_literalPatterns hps hlength m
    | _ => rfl
  | .dict _ _ =>
    rw [literalPattern] at h
    exact nomatch h
  | .entity _ | .method _ _ | .awaiting _ _ =>
    rw [literalPattern, literal] at h
    · exact nomatch h
    all_goals exact nofun

theorem acceptAll?_literalPatterns {ds : List Datum} {ps : List Pattern}
    (h : literalPatterns function ds = .ok ps) {vs : List Value} (hlength : vs.length = ds.length)
    (m : Machine) :
    acceptAll? s scope vs ps m = .ok (bindsNothing (m.heap.acceptsAll ds vs)) m := by
  match ds, vs, h with
  | [], [], h =>
    cases h
    rw [acceptAll?]
    rfl
  | d :: ds, v :: vs, h =>
    rw [literalPatterns] at h
    obtain ⟨p, hp, h⟩ := exists_of_bind_eq_ok h
    obtain ⟨ps, hps, h⟩ := exists_of_bind_eq_ok h
    cases h
    rw [acceptAll?, bind_of_ok (accept?_literalPattern hp _ m), Heap.acceptsAll, List.headD_cons]
    cases m.heap.accepts d v with
    | false => rfl
    | true =>
      have hrest := acceptAll?_literalPatterns hps (Nat.succ.inj hlength) m
      rw [Bool.true_and]
      change (acceptAll? s scope vs ps >>= _) m = _
      rw [bind_of_ok hrest]
      cases m.heap.acceptsAll ds vs <;> rfl

end

/-- The pattern of a key accepts the subject if the key accepts the arguments one by one. -/
theorem accept?_keyPattern {params : List String} {key : ArgKey Datum} {p : Pattern}
    (h : keyPattern function params key = .ok p) (hkey : key.values.length = params.length)
    {m : Machine} {args : List Value} (hargs : args.length = params.length) {v : Value}
    (hv : IsSubject m.heap args v) :
    accept? s scope v p m = .ok (bindsNothing (m.heap.acceptsAll key.values args)) m := by
  unfold keyPattern at h
  split at h
  · next single _ hvalues =>
    cases hv with
    | single =>
      rw [hvalues, accept?_literalPattern h, Heap.acceptsAll, Heap.acceptsAll, Bool.and_true]
    | several r hlength => exact absurd hargs hlength
  · next hmany =>
    obtain ⟨ps, hps, h⟩ := exists_of_bind_eq_ok h
    cases h
    cases hv with
    | single =>
      obtain ⟨param, hparam⟩ := List.length_eq_one_iff.mp hargs.symm
      obtain ⟨d, hd⟩ := List.length_eq_one_iff.mp (hkey.trans hargs.symm)
      exact (hmany d param hd hparam).elim
    | several r hlength hitems =>
      rw [accept?, bind_of_ok (getHeap_ok m)]
      dsimp only
      rw [hitems]
      exact acceptItems?_of_acceptAll? hps fun hlength => acceptAll?_literalPatterns hps hlength m

/-- The body runs up to the case of the first variant that accepts the arguments, or up to the
cases behind all variants. -/
theorem execCases_variants (s : Services) (scope : Scope) {params : List String}
    {variants : List Variant} {cases : List Case}
    (hcases : variants.mapM (variantCase function params) = .ok cases)
    (hkeys : ∀ v ∈ variants, v.1.values.length = params.length)
    (hproper : ∀ v ∈ variants, v.2.Proper) {m : Machine} {args : List Value}
    (hargs : args.length = params.length) {subject : Value}
    (hsubject : IsSubject m.heap args subject) (others : List Case) :
    match variants.find? fun v => m.heap.acceptsAll v.1.values args with
    | some v => ∃ value m', execCases s scope subject (cases ++ others) m =
        .ok (.returned value) m' ∧ m.Adds m' ∧ (m'.heap.view value).contents = v.2.contents
    | none => execCases s scope subject (cases ++ others) m = execCases s scope subject others m := by
  induction variants generalizing cases with
  | nil =>
    cases hcases
    rfl
  | cons v variants ih =>
    rw [List.mapM_cons] at hcases
    obtain ⟨c, hc, hcases⟩ := exists_of_bind_eq_ok hcases
    obtain ⟨rest, hrest, hcases⟩ := exists_of_bind_eq_ok hcases
    cases hcases
    obtain ⟨p, hp, hc⟩ := exists_of_bind_eq_ok hc
    obtain ⟨e, he, hc⟩ := exists_of_bind_eq_ok hc
    cases hc
    have haccept : accept? s scope subject p m = _ :=
      accept?_keyPattern hp (hkeys v List.mem_cons_self) hargs hsubject
    rw [List.cons_append, execCases_cons, bind_of_ok haccept, List.find?_cons]
    cases m.heap.acceptsAll v.1.values args with
    | true => exact execBlock_returning_literal he (hproper v List.mem_cons_self) m
    | false =>
      exact ih hrest (fun w hw => hkeys w (List.mem_cons_of_mem _ hw))
        fun w hw => hproper w (List.mem_cons_of_mem _ hw)

/-! ## Arguments without a result -/

def refusalParts (params : List String) : List FormattedPart :=
  params.flatMap fun param => [.literal (" " ++ param ++ "="), .field (.named param) false]

def refusalMessage (h : Heap) (params : List String) (args : List Value) : String :=
  "Uncompiled variant" ++
    String.join (List.zipWith (fun param arg => " " ++ param ++ "=" ++ (h.view arg).str) params args)

theorem evalParts_refusal {params : List String} {args : List Value} {m : Machine}
    (hbinds : Binds m.heap scope params args) :
    evalParts s scope (refusalParts params) m =
      .ok (String.join (List.zipWith
        (fun param arg => " " ++ param ++ "=" ++ (m.heap.view arg).str) params args)) m := by
  induction hbinds with
  | nil =>
    rw [refusalParts, List.flatMap_nil, evalParts]
    rfl
  | @cons param arg params args hparam _ ih =>
    have hparts : refusalParts (param :: params) =
        .literal (" " ++ param ++ "=") :: .field (.named param) false :: refusalParts params := rfl
    have hfield : evalParts s scope (.field (.named param) false :: refusalParts params) m =
          .ok ((m.heap.view arg).str ++ String.join (List.zipWith
            (fun param arg => " " ++ param ++ "=" ++ (m.heap.view arg).str) params args)) m := by
      rw [evalParts, bind_of_ok (eval_named hparam), bind_of_ok (view_ok arg m), bind_of_ok ih]
      rfl
    rw [hparts, evalParts, bind_of_ok hfield, List.zipWith_cons_cons, String.join_cons,
      ← String.append_assoc]
    rfl

theorem eval_valueError {m : Machine} (h : m.heap.lookup? scope "ValueError" = none) :
    eval s scope (.named "ValueError") m = .ok (.entity (.exceptionType .valueError)) m := by
  change nameValue scope "ValueError" m = _
  have hglobal : Builtin.global? "ValueError" = some (.entity (.exceptionType .valueError)) := by
    decide
  rw [nameValue, bind_of_ok (getHeap_ok m), h]
  dsimp only
  rw [hglobal]
  rfl

theorem call_exceptionType (rounds n : Nat) (kind : ExceptionKind) (text : String) (m : Machine) :
    (services rounds (n + 1)).call (.entity (.exceptionType kind)) [.string text] m =
      .ok (.entity (.exception ⟨kind, text⟩)) m := by
  have hview : Run.view (.string text) m = .ok (.constant (.string text)) m := by
    rw [view_ok, Heap.view]
    cases m.heap.containers <;> rfl
  change callEntity (services rounds n) (.exceptionType kind) [.string text] m = _
  rw [callEntity, newException]
  dsimp only
  rw [bind_of_ok hview]
  rfl

theorem exec_refusal {rounds n : Nat} {params : List String} {args : List Value} {m : Machine}
    (hbinds : Binds m.heap scope params args)
    (herror : m.heap.lookup? scope "ValueError" = none) :
    exec (services rounds (n + 1)) scope (refusal params) m =
      .error (.raised ⟨.valueError, refusalMessage m.heap params args⟩) m := by
  let message : Expr :=
    .formatted (.literal "Uncompiled variant" :: refusalParts params) .synthetic
  have hrefusal : refusal params =
      .raise (some (.callOf (.named "ValueError") [message])) .synthetic := rfl
  have hmessage : eval (services rounds (n + 1)) scope message m =
      .ok (.string (refusalMessage m.heap params args)) m := by
    have hparts : evalParts (services rounds (n + 1)) scope
        (.literal "Uncompiled variant" :: refusalParts params) m =
          .ok (refusalMessage m.heap params args) m := by
      rw [evalParts, bind_of_ok (evalParts_refusal hbinds)]
      rfl
    rw [eval, bind_of_ok hparts]
    rfl
  have hargument : evalAll (services rounds (n + 1)) scope [message] m =
      .ok [.string (refusalMessage m.heap params args)] m := by
    rw [evalAll, bind_of_ok hmessage]
    rfl
  have hcall : eval (services rounds (n + 1)) scope
      (.callOf (.named "ValueError") [message]) m =
        .ok (.entity (.exception ⟨.valueError, refusalMessage m.heap params args⟩)) m := by
    rw [Expr.callOf, eval, bind_of_ok (eval_valueError herror), bind_of_ok hargument]
    exact call_exceptionType rounds n .valueError _ m
  rw [hrefusal, exec, bind_of_ok hcall]
  rfl

/-- A body that matches, run where the parameters are bound to the arguments, returns the result of
the first variant whose key accepts the arguments: a value with the contents of that result.  If no
key does, it raises a `ValueError` that lists the parameters with the texts of their arguments.  It
does nothing else: only containers are added to the machine, and no name is bound. -/
theorem matching_body_returns_first_match {guard : Guard} {params : List String}
    {variants : List Variant} {body : Syntax.Block}
    (hbody : matchingBody function params variants = .ok body)
    (hkeys : ∀ v ∈ variants, v.1.values.length = params.length)
    (hproper : ∀ v ∈ variants, v.2.Proper) {m : Machine} (hsound : m.heap.Sound guard)
    {args : List Value} (hargs : Binds m.heap scope params args)
    (herror : m.heap.lookup? scope "ValueError" = none) (rounds n : Nat) :
    ∃ m', m.Adds m' ∧
      match variants.find? fun v => m.heap.acceptsAll v.1.values args with
      | some v => ∃ value,
        execBlock (services rounds (n + 1)) scope body m = .ok (.returned value) m' ∧
          (m'.heap.view value).contents = v.2.contents
      | none => execBlock (services rounds (n + 1)) scope body m =
        .error (.raised ⟨.valueError, refusalMessage m'.heap params args⟩) m' := by
  obtain ⟨cases, hcases, hbody⟩ := exists_of_bind_eq_ok hbody
  cases hbody
  obtain ⟨subject, m₁, heval, hadds, hlists, hsubject, -⟩ :=
    eval_subject (s := services rounds (n + 1)) hargs
  have hwithin : ∀ arg ∈ args, arg.Within guard m.heap.extent := fun arg harg => by
    obtain ⟨param, -, hparam⟩ := exists_of_forall₂ hargs.flip harg
    exact hsound.lookup_within hparam
  have hsame (ds : List Datum) : m₁.heap.acceptsAll ds args = m.heap.acceptsAll ds args :=
    Heap.acceptsAll_grows hsound hadds.grows hlists ds args hwithin
  have hrun := execCases_variants (services rounds (n + 1)) scope hcases hkeys hproper
    hargs.length_eq.symm hsubject [.on .wildcard [refusal params]]
  simp only [hsame] at hrun
  have hmatch : exec (services rounds (n + 1)) scope
      (.matchOn (Rewriting.subject params) (cases ++ [.on .wildcard [refusal params]]) .synthetic) m =
        execCases (services rounds (n + 1)) scope subject
          (cases ++ [.on .wildcard [refusal params]]) m₁ := by
    rw [exec, bind_of_ok heval]
  cases hfind : variants.find? fun v => m.heap.acceptsAll v.1.values args with
  | some v =>
    rw [hfind] at hrun
    obtain ⟨value, m₂, hrun, hadds', hvalue⟩ := hrun
    exact ⟨m₂, hadds.trans hadds', value, (execBlock_single ..).trans (hmatch.trans hrun), hvalue⟩
  | none =>
    rw [hfind] at hrun
    have hrefusal : exec (services rounds (n + 1)) scope (refusal params) m₁ = _ :=
      exec_refusal (hargs.adds hadds) ((hadds.lookup? scope "ValueError").trans herror)
    have hrefused : execCases (services rounds (n + 1)) scope subject
        [.on .wildcard [refusal params]] m₁ =
          .error (.raised ⟨.valueError, refusalMessage m₁.heap params args⟩) m₁ := by
      rw [execCases_cons, accept?]
      exact (execBlock_single ..).trans hrefusal
    exact ⟨m₁, hadds, (execBlock_single ..).trans (hmatch.trans (hrun.trans hrefused))⟩

/-- A list as a key accepts the tuple, and the second variant is the first one that does. -/
theorem matching_body_returns_first_match_pair : ∃ body m' value,
    matchingBody "f" ["x", "y"]
        [(.tuple [.list ⟨0⟩ [.constant (.int 2)], .constant (.bool true)], .constant (.int 5)),
          (.tuple [.list ⟨0⟩ [.constant (.int 1)], .constant (.bool true)], .constant (.int 4))] =
      .ok body ∧
    execBlock (services 0 1) [⟨0⟩] body pairMachine = .ok (.returned value) m' ∧
      (m'.heap.view value).contents = .constant (.int 4) := by
  have hbody : matchingBody "f" ["x", "y"]
      [(.tuple [.list ⟨0⟩ [.constant (.int 2)], .constant (.bool true)], .constant (.int 5)),
        (.tuple [.list ⟨0⟩ [.constant (.int 1)], .constant (.bool true)], .constant (.int 4))] =
      .ok _ := rfl
  have hargs : Binds pairMachine.heap [⟨0⟩] ["x", "y"] [.tuple ⟨0⟩, .bool true] :=
    .cons rfl (.cons rfl .nil)
  obtain ⟨m', -, value, hrun, hvalue⟩ := matching_body_returns_first_match hbody
    (by simp [ArgKey.values]) (by simp [Datum.Proper]) sound_pairMachine hargs rfl 0 0
  exact ⟨_, m', value, hbody, hrun, hvalue⟩

end Rewriting

end StagedScript
