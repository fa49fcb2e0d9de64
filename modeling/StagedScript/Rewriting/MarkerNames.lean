import StagedScript.Syntax.Tree

/-!
# Names of markers

Which names of a module stand for the markers, and what a decorator is by its
form.
-/

namespace StagedScript.Rewriting

open Syntax (Alias Block Expr Stmt)

/-- The module that the markers are imported from. -/
def markerModule : String := "comptime"

/-- The attribute and the name of the marker that keeps a function silent. -/
def skipName : String := "skip"

/-- What a decorator does. -/
inductive DecoratorKind
  | comptime
  | skip
  | other
  deriving Repr, DecidableEq

/-- The names bound to the registering marker or its module, and those bound to the silencing
marker. -/
structure MarkerNames where
  comptime : List String
  skip : List String
  deriving Repr, DecidableEq

/-- Whether names are imported from the marker module itself. -/
def isMarkerImport (level : Nat) (module : Option String) : Bool :=
  level == 0 && module == some markerModule

namespace MarkerNames

def addImported (names : MarkerNames) (a : Alias) : MarkerNames :=
  if a.name = skipName then { names with skip := a.boundName :: names.skip }
  else { names with comptime := a.boundName :: names.comptime }

/-- Adds the names that a statement binds to markers. -/
def addStmt (names : MarkerNames) : Stmt → MarkerNames
  | .importModules aliases _ =>
    let bound := (aliases.filter (·.name = markerModule)).map Alias.boundName
    { names with comptime := bound ++ names.comptime }
  | .importNames level module aliases _ =>
    if isMarkerImport level module then aliases.foldl addImported names else names
  | _ => names

/-- The names that the statements of a module bind to markers. -/
def ofBlock (body : Block) : MarkerNames :=
  body.foldl addStmt ⟨[markerModule], []⟩

/-- What an expression denotes by its form. -/
def kindOf (names : MarkerNames) : Expr → DecoratorKind
  | .name id _ =>
    if names.comptime.contains id then .comptime
    else if names.skip.contains id then .skip
    else .other
  | .member (.name id _) field _ =>
    if names.comptime.contains id then (if field = skipName then .skip else .comptime)
    else .other
  | _ => .other

/-- What a decorator does, whether or not it is called. -/
def classify (names : MarkerNames) : Expr → DecoratorKind
  | .call callee _ _ => names.kindOf callee
  | decorator => names.kindOf decorator

end MarkerNames

end StagedScript.Rewriting
