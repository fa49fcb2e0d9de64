import StagedScript.Rewriting.Literal
import StagedScript.Staging.Expansion

/-!
# Bodies of rewritten functions

The new body of a function chooses a precomputed result by the arguments: with
a match statement that raises an exception for unknown arguments, or with a
look-up in a dictionary.
-/

namespace StagedScript.Rewriting

open Staging (ArgKey)
open Syntax (Block Case Entry Expr FormattedPart Pattern Stmt)

/-- How a body chooses a result. -/
inductive Strategy
  | matching
  | lookup
  deriving Repr, DecidableEq

namespace Strategy

def name : Strategy → String
  | matching => "match"
  | lookup => "dict"

def ofName (s : String) : Except Failure Strategy :=
  match [matching, lookup].find? (·.name == s) with
  | some strategy => .ok strategy
  | none => .error (.unknownStrategy s)

end Strategy

/-- A combination of arguments and the result for it. -/
abbrev Variant := ArgKey Datum × Datum

def returning (value : Expr) : Stmt :=
  .returnValue (some value) .synthetic

/-- The parameter, or the tuple of several parameters. -/
def subject : List String → Expr
  | [single] => .named single
  | params => .tupleOf (params.map .named)

/-! ## Matching -/

mutual

/-- The pattern that accepts what equals a value. -/
def literalPattern (function : String) (d : Datum) : Except Failure Pattern :=
  match d with
  | .tuple _ items | .list _ items => do return .sequence (← literalPatterns function items)
  | .dict _ _ => unwritable function d
  | scalar => do return .value (← literal function scalar)

def literalPatterns (function : String) : List Datum → Except Failure (List Pattern)
  | [] => .ok []
  | item :: items => do
    let first ← literalPattern function item
    return first :: (← literalPatterns function items)

end

def keyPattern (function : String) (params : List String) (key : ArgKey Datum) :
    Except Failure Pattern :=
  match key.values, params with
  | [single], [_] => literalPattern function single
  | values, _ => do return .sequence (← literalPatterns function values)

def variantCase (function : String) (params : List String) (v : Variant) :
    Except Failure Case := do
  let pattern ← keyPattern function params v.1
  return .on pattern [returning (← literal function v.2)]

/-- The statement that refuses arguments without a result. -/
def refusal (params : List String) : Stmt :=
  let parts := params.flatMap fun param =>
    [FormattedPart.literal (" " ++ param ++ "="), .field (.named param) false]
  let message := Expr.formatted (.literal "Uncompiled variant" :: parts) .synthetic
  .raise (some (.callOf (.named "ValueError") [message])) .synthetic

/-- A body that matches the parameters against the arguments of each variant. -/
def matchingBody (function : String) (params : List String) (variants : List Variant) :
    Except Failure Block := do
  let cases ← variants.mapM (variantCase function params)
  return [.matchOn (subject params) (cases ++ [.on .wildcard [refusal params]]) .synthetic]

/-! ## Looking up -/

def keyLiteral (function : String) (d : Datum) : Except Failure Expr :=
  if d.isHashable then literal function d else unwritable function d

def keyExpr (function : String) (params : List String) (key : ArgKey Datum) :
    Except Failure Expr :=
  match key.values, params with
  | [single], [_] => keyLiteral function single
  | values, _ => do return .tupleOf (← values.mapM (keyLiteral function))

def variantEntry (function : String) (params : List String) (v : Variant) :
    Except Failure Entry := do
  let key ← keyExpr function params v.1
  return .pair key (← literal function v.2)

/-- A body that looks the parameters up in a dictionary of all results. -/
def lookupBody (function : String) (params : List String) (variants : List Variant) :
    Except Failure Block := do
  let entries ← variants.mapM (variantEntry function params)
  return [returning (.subscript (.dict entries .synthetic) (subject params) .synthetic)]

def Strategy.body : Strategy → String → List String → List Variant → Except Failure Block
  | matching => matchingBody
  | lookup => lookupBody

end StagedScript.Rewriting
