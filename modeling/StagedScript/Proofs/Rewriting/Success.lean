import StagedScript.Proofs.Rewriting.Literal
import StagedScript.Proofs.Rewriting.Replacement

/-!
# When rewriting succeeds

Rewriting fills in the registered functions that it reaches, in the order of
the source.  It stops at the first one that has no result, or that has a result
or arguments that cannot be written where the body needs them.
-/

namespace StagedScript

namespace Rewriting

open Staging (ArgKey Results)
open Syntax (Block Case Definition Expr FunctionHeader Param Pattern Stmt definitionsIn
  definitionsInCases)

/-- Whether a value can be an argument in the body that the strategy builds: a pattern is made from
constants and sequences, a key of a dictionary from what can be one. -/
def Strategy.Admits : Strategy → Datum → Prop
  | matching, d => d.IsSequential
  | lookup, d => d.IsLiteral ∧ d.isHashable = true

theorem Strategy.Admits.isLiteral {strategy : Strategy} {d : Datum} (h : strategy.Admits d) :
    d.IsLiteral := by
  cases strategy with
  | matching => exact Datum.IsSequential.isLiteral h
  | lookup => exact h.1

def IsRecorded (results : Results Datum) (function : String) : Prop :=
  ∃ entry ∈ results, entry.1.function = function

/-- Whether a function has results that can be written in its new body. -/
structure Fillable (results : Results Datum) (strategy : Strategy) (function : String) :
    Prop where
  recorded : IsRecorded results function
  arguments : ∀ v ∈ results.variants function, ∀ d ∈ v.1.values, strategy.Admits d
  values : ∀ v ∈ results.variants function, v.2.IsLiteral
  whole : results.variants function = [] →
    ∀ value, results.whole? function = some value → value.IsLiteral

/-- The failure names the function, and says whether a result is missing or cannot be written. -/
def Blames (results : Results Datum) (strategy : Strategy) (function : String)
    (failure : Failure) : Prop :=
  ¬Fillable results strategy function ∧
    ((¬IsRecorded results function ∧ failure = .missingResult function) ∨
      (IsRecorded results function ∧ ∃ text, failure = .unrepresentable function text))

section Reached

variable (markers : MarkerNames)

mutual

/-- The definitions in a statement that are not inside of a registered one. -/
def reachedInStmt : Stmt → List Definition
  | .function header body =>
    (header, body) :: if isMarked markers header then [] else reachedIn body
  | .branch _ thenBlock none _ => reachedIn thenBlock
  | .branch _ thenBlock (some elseBlock) _ => reachedIn thenBlock ++ reachedIn elseBlock
  | .whileLoop _ body _ | .forLoop _ _ body _ => reachedIn body
  | .matchOn _ cases _ => reachedInCases cases
  | .returnValue _ _ | .raise _ _ | .assign _ _ _ | .augment _ _ _ _ | .importModules _ _
  | .importNames _ _ _ _ | .expr _ | .comment _ | .pass | .breakLoop | .continueLoop => []

/-- The definitions in a block that are not inside of a registered one, in source order. -/
def reachedIn : List Stmt → List Definition
  | [] => []
  | stmt :: stmts => reachedInStmt stmt ++ reachedIn stmts

def reachedInCases : List Case → List Definition
  | [] => []
  | .on _ body :: cases => reachedIn body ++ reachedInCases cases

end

def marked (ds : List Definition) : List Definition :=
  ds.filter fun d => isMarked markers d.1

end Reached

theorem marked_append (markers : MarkerNames) (ds ds' : List Definition) :
    marked markers (ds ++ ds') = marked markers ds ++ marked markers ds' :=
  List.filter_append ..

/-- The new definition has the name of the old one and, if that was registered and documented, starts
with its documentation. -/
def KeepsDocstring (markers : MarkerNames) (old new : Definition) : Prop :=
  new.1.name = old.1.name ∧
    (isMarked markers old.1 = true → ∀ text, Syntax.docstring? old.2 = some text →
      ∃ rest, new.2 = .expr (.string text) :: rest)

theorem Replaces.keepsDocstring {plan : Plan} {old new : Definition} (h : Replaces plan old new) :
    KeepsDocstring plan.markers old new := by
  refine ⟨h.1, fun hmarked text htext => ?_⟩
  obtain ⟨newBody, hbody, -⟩ := h.2 hmarked
  refine ⟨newBody, ?_⟩
  rw [hbody, docstringStmts, htext]
  rfl

/-! ## Computations with a result or a failure -/

/-- The computation has a result with one property or a failure with another. -/
def Ends {α : Type} (x : Except Failure α) (good : α → Prop) (bad : Failure → Prop) : Prop :=
  match x with
  | .ok a => good a
  | .error failure => bad failure

namespace Ends

variable {α β : Type} {x : Except Failure α} {good good' : α → Prop} {bad bad' : Failure → Prop}

theorem pure {a : α} (h : good a) : Ends (Pure.pure a) good bad :=
  h

theorem throw {failure : Failure} (h : bad failure) :
    Ends (MonadExcept.throw failure : Except Failure α) good bad :=
  h

theorem mono (h : Ends x good bad) (hgood : ∀ a, good a → good' a)
    (hbad : ∀ failure, bad failure → bad' failure) : Ends x good' bad' := by
  cases x with
  | ok a => exact hgood a h
  | error failure => exact hbad failure h

theorem bind {f : α → Except Failure β} {q : β → Prop} (h : Ends x good bad)
    (hf : ∀ a, good a → Ends (f a) q bad') (hbad : ∀ failure, bad failure → bad' failure) :
    Ends (x >>= f) q bad' := by
  cases x with
  | ok a => exact hf a h
  | error failure => exact hbad failure h

variable {action : Rewrite α} {t : Trace} {good : α × Trace → Prop}

theorem run_lift {good : α → Prop} (h : Ends x good bad) :
    Ends ((monadLift x : Rewrite α).run t) (fun r => good r.1 ∧ r.2 = t) bad := by
  cases x with
  | ok a => exact ⟨h, rfl⟩
  | error failure => exact h

theorem run_bind {next : α → Rewrite β} {q : β × Trace → Prop} (h : Ends (action.run t) good bad)
    (hnext : ∀ a t', good (a, t') → Ends ((next a).run t') q bad')
    (hbad : ∀ failure, bad failure → bad' failure) : Ends ((action >>= next).run t) q bad' := by
  rw [StateT.run_bind]
  exact Ends.bind h (fun r hr => hnext r.1 r.2 hr) hbad

theorem and_yields {p : α → Prop} (h : Ends (action.run t) good bad) (hyields : Yields action p) :
    Ends (action.run t) (fun r => good r ∧ p r.1) bad := by
  cases hrun : action.run t with
  | ok r =>
    rw [hrun] at h
    exact ⟨h, hyields t r.1 r.2 hrun⟩
  | error failure =>
    rw [hrun] at h
    exact h

end Ends

/-- The computation has a result if the condition holds; if not, it fails to write a value of the
function. -/
def Settles {α : Type} (function : String) (p : Prop) (x : Except Failure α) : Prop :=
  Ends x (fun _ => p) fun failure => ¬p ∧ ∃ text, failure = .unrepresentable function text

namespace Settles

variable {α β : Type} {function : String} {p q : Prop} {x : Except Failure α}

theorem pure (hp : p) (a : α) : Settles function p (Pure.pure a : Except Failure α) :=
  hp

theorem unwritable (hp : ¬p) (d : Datum) :
    Settles function p (unwritable function d : Except Failure α) :=
  ⟨hp, _, rfl⟩

theorem congr (h : Settles function p x) (hpq : p ↔ q) : Settles function q x :=
  Ends.mono h (fun _ => hpq.mp) fun _ hbad => ⟨fun hq => hbad.1 (hpq.mpr hq), hbad.2⟩

theorem bind {f : α → Except Failure β} (h : Settles function p x)
    (hf : ∀ a, Settles function q (f a)) : Settles function (p ∧ q) (x >>= f) := by
  refine Ends.bind h (fun a hp => ?_) fun _ hbad => ⟨fun hboth => hbad.1 hboth.1, hbad.2⟩
  exact Ends.mono (hf a) (fun _ hq => ⟨hp, hq⟩) fun _ hbad =>
    ⟨fun hboth => hbad.1 hboth.2, hbad.2⟩

theorem map (h : Settles function p x) (f : α → β) :
    Settles function p (x >>= fun a => Pure.pure (f a)) :=
  Ends.bind h (fun _ hp => hp) fun _ hbad => hbad

theorem mapM {f : α → Except Failure β} {p : α → Prop} (hf : ∀ a, Settles function (p a) (f a))
    (as : List α) : Settles function (∀ a ∈ as, p a) (as.mapM f) := by
  induction as with
  | nil => exact pure (fun _ h => absurd h List.not_mem_nil) []
  | cons a as ih =>
    rw [List.mapM_cons]
    exact ((hf a).bind fun b => ih.map (b :: ·)).congr List.forall_mem_cons.symm

end Settles

/-! ## Values, patterns and keys -/

mutual

theorem settles_literal (function : String) (d : Datum) :
    Settles function d.IsLiteral (literal function d) := by
  match d with
  | .constant (.float x) =>
    rw [literal]
    split
    · next h => exact .pure h _
    · next h => exact .unwritable h _
  | .constant .none | .constant (.bool _) | .constant (.int _) | .constant (.string _) =>
    exact .pure trivial _
  | .tuple _ items | .list _ items => exact (settles_literals function items).map _
  | .dict _ entries => exact (settles_entryLiterals function entries).map _
  | .entity _ | .method _ _ | .awaiting _ _ => exact .unwritable id _

theorem settles_literals (function : String) (items : List Datum) :
    Settles function (Datum.AreLiteral items) (literals function items) := by
  match items with
  | [] => exact .pure trivial _
  | item :: items =>
    exact (settles_literal function item).bind fun _ => (settles_literals function items).map _

theorem settles_entryLiterals (function : String) (entries : List (Datum × Datum)) :
    Settles function (Datum.AreLiteralEntries entries) (entryLiterals function entries) := by
  match entries with
  | [] => exact .pure trivial _
  | (key, value) :: entries =>
    rw [entryLiterals]
    have hentry := (settles_literal function key).bind fun k =>
      (settles_literal function value).bind fun v =>
        (settles_entryLiterals function entries).map (Syntax.Entry.pair k v :: ·)
    exact hentry.congr and_assoc.symm

end

mutual

theorem settles_literalPattern (function : String) (d : Datum) :
    Settles function d.IsSequential (literalPattern function d) := by
  match d with
  | .constant c =>
    rw [literalPattern]
    · exact (settles_literal function (.constant c)).map _
    all_goals exact nofun
  | .tuple _ items | .list _ items =>
    rw [literalPattern]
    exact (settles_literalPatterns function items).map _
  | .dict _ _ =>
    rw [literalPattern]
    exact .unwritable id _
  | .entity _ | .method _ _ | .awaiting _ _ =>
    rw [literalPattern, literal]
    · exact .unwritable id _
    all_goals exact nofun

theorem settles_literalPatterns (function : String) (items : List Datum) :
    Settles function (Datum.AreSequential items) (literalPatterns function items) := by
  match items with
  | [] => exact .pure trivial _
  | item :: items =>
    exact (settles_literalPattern function item).bind fun _ =>
      (settles_literalPatterns function items).map _

end

theorem settles_keyPattern (function : String) (params : List String) (key : ArgKey Datum) :
    Settles function (∀ d ∈ key.values, Strategy.matching.Admits d)
      (keyPattern function params key) := by
  unfold keyPattern
  split
  · next hvalues =>
    rw [hvalues]
    exact (settles_literalPattern function _).congr (List.forall_mem_singleton).symm
  · exact ((settles_literalPatterns function _).congr Datum.areSequential_iff).map _

theorem settles_keyLiteral (function : String) (d : Datum) :
    Settles function (Strategy.lookup.Admits d) (keyLiteral function d) := by
  unfold keyLiteral
  split
  · next h => exact (settles_literal function d).congr (and_iff_left h).symm
  · next h => exact .unwritable (fun hboth => h hboth.2) _

theorem settles_keyExpr (function : String) (params : List String) (key : ArgKey Datum) :
    Settles function (∀ d ∈ key.values, Strategy.lookup.Admits d)
      (keyExpr function params key) := by
  unfold keyExpr
  split
  · next hvalues =>
    rw [hvalues]
    exact (settles_keyLiteral function _).congr (List.forall_mem_singleton).symm
  · exact (Settles.mapM (settles_keyLiteral function) _).map _

/-- A body is built if the arguments and the results can be written in it. -/
theorem settles_body (strategy : Strategy) (function : String) (params : List String)
    (variants : List Variant) :
    Settles function (∀ v ∈ variants, (∀ d ∈ v.1.values, strategy.Admits d) ∧ v.2.IsLiteral)
      (strategy.body function params variants) := by
  cases strategy with
  | matching =>
    exact (Settles.mapM (fun v => (settles_keyPattern function params v.1).bind fun _ =>
      (settles_literal function v.2).map _) variants).map _
  | lookup =>
    exact (Settles.mapM (fun v => (settles_keyExpr function params v.1).bind fun _ =>
      (settles_literal function v.2).map _) variants).map _

theorem mem_of_mem_distinct {digest : Digest} {ds : List Datum} {d : Datum}
    (h : d ∈ distinct ds digest) : d ∈ ds := by
  have hfold := List.foldlRecOn (motive := fun set : List Datum => ∀ d ∈ set, d ∈ ds) ds
    (Datum.hashing digest).insert (b := []) (fun _ h => absurd h List.not_mem_nil)
    fun set hset added hadded d hd => by
      unfold Hashing.insert at hd
      split at hd
      · exact hset d hd
      · rcases List.mem_append.mp hd with hd | hd
        · exact hset d hd
        · exact List.mem_singleton.mp hd ▸ hadded
  exact hfold d h

/-- The values that an annotation lists are arguments of a variant. -/
theorem mem_values_of_mem_literalSets {digest : Digest} {keys : List (ArgKey Datum)}
    {set : List Datum} (hset : set ∈ literalSets digest keys) {d : Datum} (hd : d ∈ set) :
    ∃ key ∈ keys, d ∈ key.values := by
  obtain ⟨i, -, rfl⟩ := List.mem_map.mp hset
  obtain ⟨key, hkey, hvalue⟩ := List.mem_filterMap.mp (mem_of_mem_distinct hd)
  exact ⟨key, hkey, List.mem_of_getElem? hvalue⟩

/-- If an annotation fails, one of its values cannot be written. -/
theorem ends_annotated (digest : Digest) (function : String) (set : List Datum) :
    Ends ( annotation function set digest) (fun _ => True) fun failure =>
      ¬(∀ d ∈ set, d.IsLiteral) ∧ ∃ text, failure = .unrepresentable function text := by
  unfold annotation
  dsimp only
  split
  · exact .pure trivial
  · exact Ends.bind ((settles_literals function set).congr Datum.areLiteral_iff)
      (fun _ _ => .pure trivial) fun _ => id

theorem ends_annotateParams (digest : Digest) (function : String) (params : List Param)
    (sets : List (List Datum)) (t : Trace) :
    Ends ((annotateParams digest function params sets).run t)
      (fun annotated => annotated.2.rewritten = t.rewritten) fun failure =>
        ¬(∀ set ∈ sets, ∀ d ∈ set, d.IsLiteral) ∧
          ∃ text, failure = .unrepresentable function text := by
  induction params generalizing sets t with
  | nil =>
    rw [annotateParams_nil]
    exact .pure rfl
  | cons param params ih =>
    cases sets with
    | nil =>
      rw [annotateParams_no_sets]
      exact .pure rfl
    | cons set sets =>
      rw [annotateParams]
      refine Ends.run_bind (Ends.run_lift (ends_annotated digest function set)) (fun a t' ht' => ?_)
        fun _ hbad => ⟨fun hall => hbad.1 (hall set List.mem_cons_self), hbad.2⟩
      obtain ⟨-, rfl⟩ := ht'
      have hmodify : Ends ((modify fun t => { t with usesTyping := t.usesTyping || a.usesTyping } :
          Rewrite Unit).run t') (fun r => r.2.rewritten = t'.rewritten) fun _ => False := rfl
      refine hmodify.run_bind (fun _ t'' ht'' => ?_) fun _ hbad => hbad.elim
      refine Ends.run_bind (ih sets t'') (fun _ _ h => .pure (h.trans ht'')) fun _ hbad => ?_
      exact ⟨fun hall => hbad.1 fun s hs => hall s (List.mem_cons_of_mem _ hs), hbad.2⟩

/-! ## Filling in -/

theorem isRecorded_of_mem_variants {results : Results Datum} {function : String} {v : Variant}
    (h : v ∈ results.variants function) : IsRecorded results function := by
  obtain ⟨⟨key, value⟩, hentry, hv⟩ := List.mem_filterMap.mp h
  refine ⟨_, hentry, ?_⟩
  cases key with
  | whole name => exact nomatch hv
  | variant name args =>
    dsimp only at hv
    split at hv
    · next hname => exact hname
    · exact nomatch hv

theorem isRecorded_of_whole {results : Results Datum} {function : String} {value : Datum}
    (h : results.whole? function = some value) : IsRecorded results function := by
  obtain ⟨⟨key, value⟩, hentry, hv⟩ := List.exists_of_findSome?_eq_some h
  refine ⟨_, hentry, ?_⟩
  cases key with
  | variant name args => exact nomatch hv
  | whole name =>
    dsimp only at hv
    split at hv
    · next hname => exact hname
    · exact nomatch hv

/-- A function has combinations of arguments or a result without arguments if it has any. -/
theorem not_isRecorded {results : Results Datum} {function : String}
    (hvariants : results.variants function = []) (hwhole : results.whole? function = none) :
    ¬IsRecorded results function := by
  rintro ⟨⟨key, value⟩, hentry, hname⟩
  cases key with
  | variant name args =>
    have hnone := List.filterMap_eq_nil_iff.mp hvariants _ hentry
    simp [show name = function from hname] at hnone
  | whole name =>
    have hnone := List.findSome?_eq_none_iff.mp hwhole _ hentry
    simp [show name = function from hname] at hnone

/-- A function is filled in if it can be, and is blamed if not. -/
theorem ends_fillIn (plan : Plan) (header : FunctionHeader) (t : Trace) :
    Ends ((fillIn plan header).run t)
      (fun r => Fillable plan.results plan.strategy header.name ∧ r.2.rewritten = t.rewritten)
      (Blames plan.results plan.strategy header.name) := by
  unfold fillIn
  dsimp only
  split
  · next hvariants =>
    replace hvariants : plan.results.variants header.name = [] := List.isEmpty_iff.mp hvariants
    split
    · next value hvalue =>
      have hrecorded := isRecorded_of_whole hvalue
      refine Ends.run_bind (Ends.run_lift (settles_literal header.name value)) (fun e t' ht' => ?_)
        fun failure hbad => ?_
      · refine .pure ⟨⟨hrecorded, ?_, ?_, fun _ v hv => ?_⟩, congrArg _ ht'.2⟩
        · simp [hvariants]
        · simp [hvariants]
        · exact Option.some.inj (hvalue.symm.trans hv) ▸ ht'.1
      · exact ⟨fun h => hbad.1 (h.whole hvariants value hvalue), .inr ⟨hrecorded, hbad.2⟩⟩
    · next hnone =>
      have hnot := not_isRecorded hvariants hnone
      exact .throw ⟨fun h => hnot h.recorded, .inl ⟨hnot, rfl⟩⟩
  · next hsome =>
    obtain ⟨v₀, hv₀⟩ := List.exists_mem_of_ne_nil _ (mt List.isEmpty_iff.mpr hsome)
    have hrecorded := isRecorded_of_mem_variants hv₀
    refine Ends.run_bind (ends_annotateParams _ _ _ _ t) (fun params t' ht' => ?_)
      fun failure hbad => ?_
    · refine Ends.run_bind (Ends.run_lift (settles_body plan.strategy header.name _ _))
        (fun body t'' ht'' => ?_) fun failure hbad => ?_
      · refine .pure ⟨⟨hrecorded, ?_, ?_, ?_⟩, ?_⟩
        · exact fun v hv => (ht''.1 v hv).1
        · exact fun v hv => (ht''.1 v hv).2
        · exact fun hempty => absurd (List.isEmpty_iff.mpr hempty) hsome
        · exact (congrArg _ ht''.2).trans ht'
      · exact ⟨fun h => hbad.1 fun v hv => ⟨h.arguments v hv, h.values v hv⟩,
          .inr ⟨hrecorded, hbad.2⟩⟩
    · refine ⟨fun h => hbad.1 fun set hset d hd => ?_, .inr ⟨hrecorded, hbad.2⟩⟩
      obtain ⟨key, hkey, hd⟩ := mem_values_of_mem_literalSets hset hd
      obtain ⟨v, hv, rfl⟩ := List.mem_map.mp hkey
      exact (h.arguments v hv d hd).isLiteral

theorem definitionsIn_append (stmts stmts' : List Stmt) :
    definitionsIn (stmts ++ stmts') = definitionsIn stmts ++ definitionsIn stmts' := by
  induction stmts with
  | nil => rfl
  | cons stmt stmts ih =>
    rw [List.cons_append, definitionsIn, definitionsIn, ih, List.append_assoc]

theorem definitionsIn_withStatement (body : Block) :
    definitionsIn (withStatement body) = definitionsIn body := by
  unfold withStatement
  split
  · rw [definitionsIn_append]
    exact List.append_nil _
  · rfl

theorem definitionsInCases_eq_nil {cases : List Case}
    (h : ∀ pattern body, .on pattern body ∈ cases → definitionsIn body = []) :
    definitionsInCases cases = [] := by
  induction cases with
  | nil => rfl
  | cons c cases ih =>
    obtain ⟨pattern, body⟩ := c
    rw [definitionsInCases, h pattern body List.mem_cons_self,
      ih fun p b hmem => h p b (List.mem_cons_of_mem _ hmem)]
    rfl

theorem definitionsIn_body {strategy : Strategy} {function : String} {params : List String}
    {variants : List Variant} {body : Block}
    (h : strategy.body function params variants = .ok body) : definitionsIn body = [] := by
  cases strategy with
  | matching =>
    change matchingBody function params variants = .ok body at h
    obtain ⟨cases, hcases, h⟩ := exists_of_bind_eq_ok h
    cases h
    have hnone : definitionsInCases (cases ++ [.on .wildcard [refusal params]]) = [] := by
      apply definitionsInCases_eq_nil
      intro pattern body hmem
      rcases List.mem_append.mp hmem with hmem | hmem
      · obtain ⟨v, -, hcase⟩ := of_mem_of_mapM hcases hmem
        obtain ⟨pattern, value, ⟨⟩⟩ := body_of_variantCase hcase
        rfl
      · cases List.mem_singleton.mp hmem
        rfl
    exact (List.append_nil _).trans hnone
  | lookup =>
    change lookupBody function params variants = .ok body at h
    obtain ⟨entries, -, h⟩ := exists_of_bind_eq_ok h
    cases h
    rfl

theorem yields_fillIn_definitions (plan : Plan) (header : FunctionHeader) :
    Yields (fillIn plan header) fun filled =>
      filled.1.name = header.name ∧ definitionsIn filled.2 = [] := by
  unfold fillIn
  dsimp only
  split
  · split
    · exact yields_bind (p := fun _ => True) (yields_of_forall fun _ => trivial) fun _ _ =>
        yields_pure ⟨rfl, rfl⟩
    · exact yields_throw _
  · exact yields_bind (p := fun _ => True) (yields_of_forall fun _ => trivial) fun _ _ =>
      yields_bind (yields_lift fun _ hbody => definitionsIn_body hbody) fun _ hbody =>
        yields_pure ⟨rfl, hbody⟩

/-! ## Rewritten statements -/

/-- The failure blames the first registered definition that cannot be filled in. -/
def StopsAt (plan : Plan) (ds : List Definition) (failure : Failure) : Prop :=
  ∃ before d after, marked plan.markers ds = before ++ d :: after ∧
    (∀ e ∈ before, Fillable plan.results plan.strategy e.1.name) ∧
      Blames plan.results plan.strategy d.1.name failure

/-- The action fills in the registered ones among definitions, in their order, and gives a result
with the property; or it stops at one of them. -/
def FillsIn {α : Type} (plan : Plan) (ds : List Definition) (good : α → Prop)
    (action : Rewrite α) : Prop :=
  ∀ t, Ends (action.run t)
    (fun r => r.2.rewritten = t.rewritten ++ (marked plan.markers ds).map (·.1.name) ∧
      (∀ d ∈ marked plan.markers ds, Fillable plan.results plan.strategy d.1.name) ∧ good r.1)
    (StopsAt plan ds)

namespace FillsIn

variable {α β : Type} {plan : Plan} {ds ds' : List Definition} {good : α → Prop}
  {good' : β → Prop} {action : Rewrite α}

theorem pure {a : α} (h : good a) : FillsIn plan [] good (Pure.pure a) :=
  fun _ => ⟨(List.append_nil _).symm, fun _ hd => absurd hd List.not_mem_nil, h⟩

theorem bind {next : α → Rewrite β} (h : FillsIn plan ds good action)
    (hnext : ∀ a, good a → FillsIn plan ds' good' (next a)) :
    FillsIn plan (ds ++ ds') good' (action >>= next) := by
  intro t
  refine Ends.run_bind (h t) (fun a t' ht' => ?_) fun failure hstops => ?_
  · obtain ⟨hrewritten, hfillable, ha⟩ := ht'
    refine Ends.mono (hnext a ha t') (fun r hr => ?_) fun failure hstops => ?_
    · obtain ⟨hrewritten', hfillable', hb⟩ := hr
      rw [marked_append, List.map_append, ← List.append_assoc]
      refine ⟨hrewritten'.trans (by rw [hrewritten]), fun d hd => ?_, hb⟩
      exact (List.mem_append.mp hd).elim (hfillable d) (hfillable' d)
    · obtain ⟨before, d, after, hsplit, hbefore, hblames⟩ := hstops
      refine ⟨marked plan.markers ds ++ before, d, after, ?_, fun e he => ?_, hblames⟩
      · rw [marked_append, hsplit, List.append_assoc]
      · exact (List.mem_append.mp he).elim (hfillable e) (hbefore e)
  · obtain ⟨before, d, after, hsplit, hbefore, hblames⟩ := hstops
    refine ⟨before, d, after ++ marked plan.markers ds', ?_, hbefore, hblames⟩
    rw [marked_append, hsplit, List.append_assoc]
    rfl

theorem map (h : FillsIn plan ds good action) {f : α → β} (hf : ∀ a, good a → good' (f a)) :
    FillsIn plan ds good' (action >>= fun a => Pure.pure (f a)) := by
  have hbind : FillsIn plan (ds ++ []) good' (action >>= fun a => Pure.pure (f a)) :=
    h.bind fun a ha => pure (hf a ha)
  rwa [List.append_nil] at hbind

theorem cons {d : Definition} (h : FillsIn plan ds good action)
    (hd : ¬isMarked plan.markers d.1 = true) : FillsIn plan (d :: ds) good action := by
  have hsame : marked plan.markers (d :: ds) = marked plan.markers ds :=
    List.filter_cons_of_neg hd
  unfold FillsIn StopsAt at h ⊢
  rwa [hsame]

end FillsIn

/-- A registered function is filled in and replaced. -/
theorem fillsIn_rewriteMarked (plan : Plan) (header : FunctionHeader) (body : Block)
    (hmarked : isMarked plan.markers header = true) :
    FillsIn plan [(header, body)]
      (fun stmt => List.Forall₂ (Replaces plan) [(header, body)] stmt.definitions)
      (rewriteMarked plan (withoutMarkers plan.markers header) body) := by
  intro t
  have hself : marked plan.markers [(header, body)] = [(header, body)] := by
    simp [marked, hmarked]
  have hfill := ((ends_fillIn plan (withoutMarkers plan.markers header) t).and_yields
    (yields_fillIn_definitions plan _)).and_yields (yields_fillIn_made plan _)
  refine hfill.run_bind (fun filled t' ht' => ?_) fun failure hblames => ?_
  · obtain ⟨⟨⟨hfillable, htrace⟩, hname, hnone⟩, -, hmade⟩ := ht'
    refine ⟨?_, fun d hd => ?_, .cons ⟨hname, fun _ => ⟨filled.2, rfl, hmade⟩⟩ ?_⟩
    · rw [hself]
      show t'.rewritten ++ [filled.1.name] = t.rewritten ++ [header.name]
      rw [htrace, hname]
      rfl
    · rw [hself, List.mem_singleton] at hd
      exact hd ▸ hfillable
    · rw [definitionsIn_append, hnone, List.append_nil, docstringStmts]
      split <;> exact .nil
  · exact ⟨[], (header, body), [], hself, fun _ he => absurd he List.not_mem_nil, hblames⟩

mutual

theorem fillsIn_rewriteStmt (plan : Plan) (stmt : Stmt) :
    FillsIn plan (reachedInStmt plan.markers stmt)
      (fun stmts => List.Forall₂ (Replaces plan) (reachedInStmt plan.markers stmt)
        (definitionsIn stmts))
      (rewriteStmt plan stmt) := by
  match stmt with
  | .function header body =>
    rw [rewriteStmt]
    split
    · next hmarked =>
      rw [reachedInStmt, if_pos hmarked]
      refine (fillsIn_rewriteMarked plan header body hmarked).map fun stmt hstmt => ?_
      rw [definitionsIn, definitionsIn, List.append_nil]
      exact hstmt
    · next hnot =>
      rw [reachedInStmt, if_neg hnot]
      refine ((fillsIn_rewriteStmts plan body).cons hnot).map fun body' hbody => ?_
      rw [definitionsIn, definitionsIn, List.append_nil, Stmt.definitions,
        definitionsIn_withStatement]
      exact .cons ⟨rfl, fun hmarked => absurd hmarked hnot⟩ hbody
  | .branch _ thenBlock none _ =>
    rw [rewriteStmt]
    refine (fillsIn_rewriteStmts plan thenBlock).map fun thenBlock' hthen => ?_
    simpa [reachedInStmt, definitionsIn, Stmt.definitions, definitionsIn_withStatement] using hthen
  | .branch _ thenBlock (some elseBlock) _ =>
    rw [rewriteStmt]
    refine (fillsIn_rewriteStmts plan thenBlock).bind fun thenBlock' hthen =>
      (fillsIn_rewriteStmts plan elseBlock).map fun elseBlock' helse => ?_
    simpa [reachedInStmt, definitionsIn, Stmt.definitions, definitionsIn_withStatement] using
      List.rel_append hthen helse
  | .whileLoop _ body _ | .forLoop _ _ body _ =>
    rw [rewriteStmt]
    refine (fillsIn_rewriteStmts plan body).map fun body' hbody => ?_
    simpa [reachedInStmt, definitionsIn, Stmt.definitions, definitionsIn_withStatement] using hbody
  | .matchOn _ cases _ =>
    rw [rewriteStmt]
    refine (fillsIn_rewriteCases plan cases).map fun cases' hcases => ?_
    simpa [reachedInStmt, definitionsIn, Stmt.definitions] using hcases
  | .importModules names _ =>
    rw [rewriteStmt]
    split <;> exact .pure .nil
  | .importNames level module _ _ =>
    rw [rewriteStmt]
    split <;> exact .pure .nil
  | .returnValue _ _ | .raise _ _ | .assign _ _ _ | .augment _ _ _ _ | .expr _ | .comment _
  | .pass | .breakLoop | .continueLoop =>
    rw [rewriteStmt]
    · exact .pure .nil
    all_goals exact nofun

theorem fillsIn_rewriteStmts (plan : Plan) (stmts : List Stmt) :
    FillsIn plan (reachedIn plan.markers stmts)
      (fun stmts' => List.Forall₂ (Replaces plan) (reachedIn plan.markers stmts)
        (definitionsIn stmts'))
      (rewriteStmts plan stmts) := by
  match stmts with
  | [] =>
    rw [rewriteStmts]
    exact .pure .nil
  | stmt :: stmts =>
    rw [rewriteStmts]
    refine (fillsIn_rewriteStmt plan stmt).bind fun first hfirst =>
      (fillsIn_rewriteStmts plan stmts).map fun rest hrest => ?_
    rw [definitionsIn_append]
    exact List.rel_append hfirst hrest

theorem fillsIn_rewriteCases (plan : Plan) (cases : List Case) :
    FillsIn plan (reachedInCases plan.markers cases)
      (fun cases' => List.Forall₂ (Replaces plan)
        (reachedInCases plan.markers cases) (definitionsInCases cases'))
      (rewriteCases plan cases) := by
  match cases with
  | [] =>
    rw [rewriteCases]
    exact .pure .nil
  | .on pattern body :: cases =>
    rw [rewriteCases]
    refine (fillsIn_rewriteStmts plan body).bind fun body' hbody =>
      (fillsIn_rewriteCases plan cases).map fun cases' hcases => ?_
    rw [definitionsInCases, definitionsIn_withStatement]
    exact List.rel_append hbody hcases

end

/-! ## Rewritten modules -/

theorem definitionsIn_addTypingImport (body : Block) :
    definitionsIn (addTypingImport body) = definitionsIn body := by
  unfold addTypingImport
  split
  next documentation rest hsplit =>
    have hparts : documentation ++ rest = body := by
      split at hsplit
      · cases hsplit
        exact List.take_append_drop 1 body
      · cases hsplit
        rfl
    have hrest (p : Stmt → Bool) :
        definitionsIn (rest.takeWhile p) ++ definitionsIn (rest.dropWhile p) =
          definitionsIn rest := by
      rw [← definitionsIn_append, List.takeWhile_append_dropWhile]
    rw [← hparts, definitionsIn_append, definitionsIn_append, definitionsIn_append,
      List.append_assoc]
    exact congrArg _ (hrest _)

/-- A module is rewritten with its functions filled in, or a definition is blamed. -/
theorem ends_rewriteModule (results : Results Datum) (strategy : Strategy) (body : Block)
    (digest : Digest) :
    let markers := MarkerNames.ofBlock body
    let registered := marked markers (reachedIn markers body)
    Ends (rewriteModule results strategy body digest)
      (fun r => r.functions = registered.map (·.1.name) ∧
        (∀ d ∈ registered, Fillable results strategy d.1.name) ∧
          List.Forall₂ (Replaces ⟨markers, results, strategy, digest⟩) (reachedIn markers body)
            (definitionsIn r.body))
      (StopsAt ⟨markers, results, strategy, digest⟩ (reachedIn markers body)) := by
  refine Ends.bind (fillsIn_rewriteStmts ⟨.ofBlock body, results, strategy, digest⟩ body {})
    (fun r hr => ?_) fun _ => id
  obtain ⟨hfunctions, hfillable, hdefinitions⟩ := hr
  refine .pure ⟨hfunctions, hfillable, ?_⟩
  dsimp only
  split
  · rwa [definitionsIn_addTypingImport]
  · exact hdefinitions

/-- Rewriting a module succeeds if and only if each registered definition that it reaches has
results that can be written in its new body.  If it fails, it names the first definition in source
order of which this is not true, and whether a result is missing or cannot be written.  If it
succeeds, the functions with new bodies are the registered definitions that it reached, in source
order; each definition that was reached is still there in the same order, and the registered ones
start with the strings that documented them. -/
theorem rewriting_succeeds_iff (results : Results Datum) (strategy : Strategy) (body : Block)
    (digest : Digest) :
    let markers := MarkerNames.ofBlock body
    let registered := marked markers (reachedIn markers body)
    ((∃ r, rewriteModule results strategy body digest = .ok r) ↔
        ∀ d ∈ registered, Fillable results strategy d.1.name) ∧
      (∀ failure, rewriteModule results strategy body digest = .error failure →
        ∃ before d after, registered = before ++ d :: after ∧
          (∀ e ∈ before, Fillable results strategy e.1.name) ∧
          Blames results strategy d.1.name failure) ∧
      ∀ r, rewriteModule results strategy body digest = .ok r →
        r.functions = registered.map (·.1.name) ∧
          List.Forall₂ (KeepsDocstring markers) (reachedIn markers body)
            (definitionsIn r.body) := by
  intro markers registered
  have hends := ends_rewriteModule results strategy body digest
  cases hmodule : rewriteModule results strategy body digest with
  | ok r =>
    rw [hmodule] at hends
    obtain ⟨hfunctions, hfillable, hdefinitions⟩ := hends
    refine ⟨⟨fun _ => hfillable, fun _ => ⟨r, rfl⟩⟩, nofun, fun r' hr' => ?_⟩
    obtain rfl := Except.ok.inj hr'
    exact ⟨hfunctions, hdefinitions.imp fun _ _ h => h.keepsDocstring⟩
  | error failure =>
    rw [hmodule] at hends
    refine ⟨⟨nofun, fun hall => ?_⟩, fun failure' hfailure => ?_, nofun⟩
    · obtain ⟨before, d, after, hsplit, -, hblames⟩ := hends
      have hd : d ∈ registered := by
        rw [show registered = before ++ d :: after from hsplit]
        exact List.mem_append_right _ List.mem_cons_self
      exact absurd (hall d hd) hblames.1
    · obtain rfl := Except.error.inj hfailure
      exact hends

/-- A registered function inside of one that is not registered. -/
def nested : Block := [
  .function
    { name := "outer"
      decorators := []
      params := []
      returnType := none
      span := .synthetic }
    [.function
      { name := "inner"
        decorators := [.named "comptime"]
        params := []
        returnType := none
        span := .synthetic }
      [.expr (.string "One."), returning (.literal (.int 1))]]]

/-- The inner function is rewritten if there is a result for it. -/
theorem rewriting_succeeds_iff_nested :
    (∃ r, rewriteModule [(.whole "inner", .constant (.int 1))] .matching nested = .ok r ∧
        r.functions = ["inner"]) ∧
      ∀ failure, rewriteModule [] .matching nested = .error failure →
        failure = .missingResult "inner" := by
  have hreached {d : Definition} (hd : d ∈ marked (MarkerNames.ofBlock nested)
      (reachedIn (MarkerNames.ofBlock nested) nested)) : d.1.name = "inner" :=
    List.mem_singleton.mp (show d ∈ [_] from hd) ▸ rfl
  constructor
  · obtain ⟨hiff, -, hok⟩ :=
      rewriting_succeeds_iff [(.whole "inner", .constant (.int 1))] .matching nested .standard
    have hfillable : Fillable [(.whole "inner", .constant (.int 1))] .matching "inner" :=
      ⟨⟨_, List.mem_singleton.mpr rfl, rfl⟩, nofun, nofun, fun _ _ h => Option.some.inj h ▸ trivial⟩
    obtain ⟨r, hr⟩ := hiff.mpr fun d hd => (hreached hd).symm ▸ hfillable
    exact ⟨r, hr, (hok r hr).1⟩
  · intro failure hfailure
    obtain ⟨-, herror, -⟩ := rewriting_succeeds_iff [] .matching nested .standard
    obtain ⟨before, d, after, hsplit, -, hblames⟩ := herror failure hfailure
    have hd : d ∈ before ++ d :: after := List.mem_append_right _ List.mem_cons_self
    rw [← hsplit] at hd
    rcases hblames.2 with ⟨-, hmissing⟩ | ⟨⟨entry, hentry, -⟩, -⟩
    · rw [hmissing, hreached hd]
    · exact absurd hentry List.not_mem_nil

end Rewriting

end StagedScript
