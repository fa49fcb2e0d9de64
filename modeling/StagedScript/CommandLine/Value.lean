import StagedScript.Staging.Precompute

/-!
# Arguments as values

An argument that is written like a literal value of the language stands for
that value; any other argument stands for its own text.
-/

namespace StagedScript.CommandLine

open Run
open Syntax (Expr)

mutual

/-- The value of a literal: a constant, a number with a sign, or a tuple or list of literals. -/
def literalValue : Expr → OptionT Run Value
  | .constant value _ => pure (.constant value)
  | .unary .neg (.constant (.int n) _) _ =>
    if n = Int64.minValue then failure else pure (.int (-n))
  | .unary .neg (.constant (.float x) _) _ => pure (.float (-x))
  | .tuple items _ => do newTuple (← literalValues items).toArray
  | .list items _ => do newList (← literalValues items).toArray
  | _ => failure

def literalValues : List Expr → OptionT Run (List Value)
  | [] => pure []
  | e :: es => do
    let value ← literalValue e
    return value :: (← literalValues es)

end

def argumentValue (text : String) : Run Value := do
  match Syntax.readExpr text with
  | .error _ => return .string text
  | .ok e => return ((← (literalValue e).run).getD (.string text))

def callWith (function : Value) (args : List String) : Run (Except Failure String) := do
  let values ← args.mapM argumentValue
  let result ← Evaluation.fullServices.call function values
  return .ok (← view result).repr

end StagedScript.CommandLine
