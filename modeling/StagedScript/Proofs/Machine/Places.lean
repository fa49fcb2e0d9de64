import StagedScript.Evaluation.Expression
import StagedScript.Proofs.Syntax.Plain

/-!
# Evaluation without places

The value of an expression does not depend on where its parts stand in a text.
-/

namespace StagedScript.Evaluation

open Syntax

mutual

theorem eval_bare (s : Services) (scope : Scope) (e : Expr) :
    eval s scope (e.strip .literal) = eval s scope e := by
  match e with
  | .name _ _ | .constant _ _ => rfl
  | .formatted parts _ => rw [Expr.strip, eval, eval, evalParts_bare s scope parts]
  | .tuple items _ | .list items _ => rw [Expr.strip, eval, eval, evalAll_bare s scope items]
  | .dict entries _ => rw [Expr.strip, eval, eval, evalEntries_bare s scope #[] entries]
  | .member target _ _ => rw [Expr.strip, eval, eval, eval_bare s scope target]
  | .subscript target index _ =>
    rw [Expr.strip, eval, eval, eval_bare s scope target, eval_bare s scope index]
  | .call callee args _ =>
    rw [Expr.strip, eval, eval, eval_bare s scope callee, evalAll_bare s scope args]
  | .binary _ left right _ =>
    rw [Expr.strip, eval, eval, eval_bare s scope left, eval_bare s scope right]
  | .unary _ operand _ => rw [Expr.strip, eval, eval, eval_bare s scope operand]
  | .conditional condition thenValue elseValue _ =>
    rw [Expr.strip, eval, eval, eval_bare s scope condition, eval_bare s scope thenValue,
      eval_bare s scope elseValue]

theorem evalAll_bare (s : Services) (scope : Scope) (es : List Expr) :
    evalAll s scope (stripItems .literal es) = evalAll s scope es := by
  match es with
  | [] => rfl
  | e :: es => rw [stripItems, evalAll, evalAll, eval_bare s scope e, evalAll_bare s scope es]

theorem evalEntries_bare (s : Services) (scope : Scope) (found : Array (Value × Value))
    (entries : List Entry) :
    evalEntries s scope found (stripEntries .literal entries) =
      evalEntries s scope found entries := by
  match entries with
  | [] => rfl
  | .pair key value :: entries =>
    simp only [stripEntries, evalEntries, eval_bare s scope key, eval_bare s scope value,
      fun found => evalEntries_bare s scope found entries]

theorem evalParts_bare (s : Services) (scope : Scope) (parts : List FormattedPart) :
    evalParts s scope (stripParts .literal parts) = evalParts s scope parts := by
  match parts with
  | [] => rfl
  | .literal _ :: parts => rw [stripParts, evalParts, evalParts, evalParts_bare s scope parts]
  | .field value _ :: parts =>
    rw [stripParts, evalParts, evalParts, eval_bare s scope value, evalParts_bare s scope parts]

end

end StagedScript.Evaluation
