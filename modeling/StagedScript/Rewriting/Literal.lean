import StagedScript.Staging.Failure
import StagedScript.Syntax.Printer
import StagedScript.Value.Datum

/-!
# Values as literals

Constants and containers can be written as expressions, as long as no number
among them is infinite or undefined.  Anything else has no literal.
-/

namespace StagedScript.Rewriting

open Syntax (Constant Expr Entry)
open Text (Span)

def unwritable {α : Type} (function : String) (d : Datum) : Except Failure α :=
  .error (.unrepresentable function d.repr)

mutual

/-- The expression that stands for a value of a function. -/
def literal (function : String) (d : Datum) : Except Failure Expr :=
  match d with
  | .constant (.float x) =>
    if Decimal.isFinite x then .ok (.literal (.float x)) else unwritable function d
  | .constant c => .ok (.literal c)
  | .tuple _ items => do return .tupleOf (← literals function items)
  | .list _ items => do return .list (← literals function items) .synthetic
  | .dict _ entries => do return .dict (← entryLiterals function entries) .synthetic
  | d => unwritable function d

def literals (function : String) : List Datum → Except Failure (List Expr)
  | [] => .ok []
  | item :: items => do
    let first ← literal function item
    return first :: (← literals function items)

/-- The expressions that stand for dictionary entries. -/
def entryLiterals (function : String) :
    List (Datum × Datum) → Except Failure (List Entry)
  | [] => .ok []
  | (key, value) :: entries => do
    let key ← literal function key
    let value ← literal function value
    return .pair key value :: (← entryLiterals function entries)

end

end StagedScript.Rewriting
