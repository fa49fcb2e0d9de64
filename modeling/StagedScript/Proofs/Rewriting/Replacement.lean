import StagedScript.Proofs.Rewriting.Again
import StagedScript.Proofs.Syntax.Definitions

/-!
# What replaces the body of a function

The new body of a registered function is the string that documented it and what is
made from its results: a statement that returns the only one, or what the strategy
builds from the arguments and results of all variants.
-/

namespace StagedScript.Rewriting

open Syntax (Block Definition Expr FunctionHeader Param)

/-- How many values the longest key of the variants has. -/
def arity (variants : List Variant) : Nat :=
  (variants.map (·.1.values.length)).foldl max 0

@[simp]
theorem length_literalSets (digest : Digest) (variants : List Variant) :
    (literalSets digest (variants.map (·.1))).length = arity variants := by
  simp [literalSets, arity, Function.comp_def]

/-- The parameters that choose a result. -/
def choosing (header : FunctionHeader) (variants : List Variant) : List String :=
  (header.params.take (arity variants)).map (·.name)

/-- The block is made from the results of a function: it returns the only result, or it is what the
strategy builds from the variants. -/
inductive MadeFrom (plan : Plan) (header : FunctionHeader) : Block → Prop
  | whole {d : Datum} {e : Expr} (hvariants : plan.results.variants header.name = [])
      (hwhole : plan.results.whole? header.name = some d) (he : literal header.name d = .ok e) :
      MadeFrom plan header [returning e]
  | variants {body : Block} (hvariants : plan.results.variants header.name ≠ [])
      (hbody : plan.strategy.body header.name
        (choosing header (plan.results.variants header.name))
        (plan.results.variants header.name) = .ok body) : MadeFrom plan header body

@[simp]
theorem annotateParams_nil (digest : Digest) (function : String) (sets : List (List Datum)) :
    annotateParams digest function [] sets = pure [] := by
  cases sets <;> rfl

/-- Parameters that choose no result are not annotated. -/
@[simp]
theorem annotateParams_no_sets (digest : Digest) (function : String) (params : List Param) :
    annotateParams digest function params [] = pure params := by
  cases params <;> rfl

/-- Annotations do not change the names of parameters. -/
theorem yields_annotateParams (digest : Digest) (function : String) (params : List Param)
    (sets : List (List Datum)) :
    Yields (annotateParams digest function params sets) fun annotated =>
      annotated.map (·.name) = params.map (·.name) := by
  induction params generalizing sets with
  | nil =>
    rw [annotateParams_nil]
    exact yields_pure rfl
  | cons param params ih =>
    cases sets with
    | nil =>
      rw [annotateParams_no_sets]
      exact yields_pure rfl
    | cons set sets =>
      rw [annotateParams]
      refine yields_bind (p := fun _ => True) (yields_of_forall fun _ => trivial) fun _ _ => ?_
      refine yields_bind (p := fun _ => True) (yields_of_forall fun _ => trivial) fun _ _ => ?_
      exact yields_bind (ih sets) fun _ h => yields_pure (congrArg (param.name :: ·) h)

theorem yields_fillIn_made (plan : Plan) (header : FunctionHeader) :
    Yields (fillIn plan header) fun filled =>
      filled.1.params.map (·.name) = header.params.map (·.name) ∧
        MadeFrom plan header filled.2 := by
  unfold fillIn
  dsimp only
  split
  · next hvariants =>
    split
    · next d hwhole =>
      refine yields_bind (yields_lift fun e he => he) fun e he => yields_pure ⟨rfl, ?_⟩
      exact .whole (List.isEmpty_iff.mp hvariants) hwhole he
    · exact yields_throw _
  · next hvariants =>
    refine yields_bind (yields_annotateParams _ _ _ _) fun params hparams => ?_
    refine yields_bind (yields_lift fun body hbody => hbody) fun body hbody => ?_
    rw [length_literalSets] at hbody
    exact yields_pure ⟨hparams, .variants (mt List.isEmpty_iff.mpr hvariants) hbody⟩

theorem yields_rewriteMarked_made (plan : Plan) (header : FunctionHeader) (body : Block) :
    Yields (rewriteMarked plan header body) fun stmt => ∃ header' newBody,
      stmt = .function header' (docstringStmts body ++ newBody) ∧
        header'.params.map (·.name) = header.params.map (·.name) ∧
          MadeFrom plan header newBody := by
  unfold rewriteMarked
  refine yields_bind (yields_fillIn_made plan header) fun filled hfilled => ?_
  refine yields_bind (p := fun _ => True) (yields_of_forall fun _ => trivial) fun _ _ => ?_
  exact yields_pure ⟨filled.1, filled.2, rfl, hfilled⟩

/-- The new definition has the name of the old one and, if that was registered, its documentation
and then what was made from its results. -/
def Replaces (plan : Plan) (old new : Definition) : Prop :=
  new.1.name = old.1.name ∧
    (isMarked plan.markers old.1 = true → ∃ newBody,
      new.2 = docstringStmts old.2 ++ newBody ∧
        MadeFrom plan (withoutMarkers plan.markers old.1) newBody)

end StagedScript.Rewriting
