import StagedScript.Rewriting.Literal
import StagedScript.Staging.Expansion

/-!
# Annotations of parameters

A parameter of a rewritten function admits only the values that the function
was evaluated with; its annotation lists them.
-/

namespace StagedScript.Rewriting

open Staging (ArgKey)
open Syntax (Expr)

/-- The distinct values in the order of their first occurrence. -/
def distinct (ds : List Datum) (digest : Digest := .standard) : List Datum :=
  ds.foldl (Datum.hashing digest).insert []

/-- The distinct values at each position of the keys. -/
def literalSets (digest : Digest) (keys : List (ArgKey Datum)) : List (List Datum) :=
  let arity := (keys.map (·.values.length)).foldl max 0
  (List.range arity).map fun i => distinct (keys.filterMap (·.values[i]?)) digest

/-- An annotation and whether it needs the module of annotation forms. -/
structure Annotation where
  expr : Expr
  usesTyping : Bool

/-- The annotation that admits the given values: the truth values have a name, all others are
listed. -/
def annotation (function : String) (set : List Datum) (digest : Digest := .standard) :
    Except Failure Annotation := do
  let hasBool (b : Bool) : Bool := set.any ((Datum.hashing digest).finds (.constant (.bool b)))
  if set.length = 2 ∧ hasBool true ∧ hasBool false then
    return ⟨.named "bool", false⟩
  let elements ← literals function set
  let index :=
    match elements with
    | [single] => single
    | several => .tupleOf several
  return ⟨.subscript (.member (.named "typing") "Literal" .synthetic) index .synthetic, true⟩

end StagedScript.Rewriting
