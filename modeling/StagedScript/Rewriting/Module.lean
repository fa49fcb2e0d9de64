import StagedScript.Rewriting.Annotation
import StagedScript.Rewriting.Body
import StagedScript.Rewriting.MarkerNames
import StagedScript.Staging.Results
import StagedScript.Syntax.Parser.Statement

/-!
# Rewriting a module

Registered functions get bodies that return precomputed results.  Markers and
their imports disappear, and what the new annotations need is imported.
-/

namespace StagedScript.Rewriting

open Staging (Results)
open Syntax (Alias Block Case Expr FunctionHeader Param Stmt)

/-- What rewriting depends on. -/
structure Plan where
  markers : MarkerNames
  results : Results Datum
  strategy : Strategy
  /-- How literals are hashed. -/
  digest : Digest

/-- What rewriting found out on the way. -/
structure Trace where
  /-- Whether an annotation needs the module of annotation forms. -/
  usesTyping : Bool := false
  /-- The functions with new bodies, in source order. -/
  rewritten : List String := []
  deriving Repr, DecidableEq

/-- A step of rewriting. -/
abbrev Rewrite := StateT Trace (Except Failure)

def hasOnlyComments (body : Block) : Bool :=
  body.all fun stmt =>
    match stmt with
    | .comment _ => true
    | _ => false

/-- A block that holds at least one statement. -/
def withStatement (body : Block) : Block :=
  if hasOnlyComments body then body ++ [.pass] else body

/-- Annotates parameters with the values that they admit. -/
def annotateParams (digest : Digest) (function : String) :
    List Param → List (List Datum) → Rewrite (List Param)
  | param :: params, set :: sets => do
    let annotation ← annotation function set digest
    modify fun t => { t with usesTyping := t.usesTyping || annotation.usesTyping }
    let param : Param := { param with annotation := some annotation.expr }
    return param :: (← annotateParams digest function params sets)
  | params, _ => return params

/-- The header and the body of a registered function with its results put in. -/
def fillIn (plan : Plan) (header : FunctionHeader) : Rewrite (FunctionHeader × Block) := do
  let variants := plan.results.variants header.name
  if variants.isEmpty then
    match plan.results.whole? header.name with
    | some value => return (header, [returning (← literal header.name value)])
    | none => throw (.missingResult header.name)
  else
    let sets := literalSets plan.digest (variants.map (·.1))
    let params ← annotateParams plan.digest header.name header.params sets
    let names := (header.params.take sets.length).map (·.name)
    return ({ header with params := params }, ← plan.strategy.body header.name names variants)

def docstringStmts (body : Block) : Block :=
  match Syntax.docstring? body with
  | some text => [.expr (.string text)]
  | none => []

/-- A registered function with its results put in. -/
def rewriteMarked (plan : Plan) (header : FunctionHeader) (body : Block) : Rewrite Stmt := do
  let (header, newBody) ← fillIn plan header
  modify fun t => { t with rewritten := t.rewritten ++ [header.name] }
  return .function header (docstringStmts body ++ newBody)

/-- The header without the markers among its decorators. -/
def withoutMarkers (markers : MarkerNames) (header : FunctionHeader) : FunctionHeader :=
  { header with decorators := header.decorators.filter (markers.classify · = .other) }

/-- Whether a function is registered by one of its decorators. -/
def isMarked (markers : MarkerNames) (header : FunctionHeader) : Bool :=
  header.decorators.any (markers.classify · = .comptime)

mutual

/-- What a statement becomes: nothing if it only imports markers. -/
def rewriteStmt (plan : Plan) : Stmt → Rewrite (List Stmt)
  | .function header body => do
    let bare := withoutMarkers plan.markers header
    if isMarked plan.markers header then return [← rewriteMarked plan bare body]
    else return [.function bare (withStatement (← rewriteStmts plan body))]
  | .importModules names span =>
    let names := names.filter (·.name ≠ markerModule)
    return if names.isEmpty then [] else [.importModules names span]
  | .importNames level module names span =>
    return if isMarkerImport level module then [] else [.importNames level module names span]
  | .branch condition thenBlock elseBlock span => do
    let thenBlock := withStatement (← rewriteStmts plan thenBlock)
    match elseBlock with
    | none => return [.branch condition thenBlock none span]
    | some block =>
      let elseBlock := withStatement (← rewriteStmts plan block)
      return [.branch condition thenBlock (some elseBlock) span]
  | .whileLoop condition body span => do
    return [.whileLoop condition (withStatement (← rewriteStmts plan body)) span]
  | .forLoop target iterable body span => do
    return [.forLoop target iterable (withStatement (← rewriteStmts plan body)) span]
  | .matchOn subject cases span => do
    return [.matchOn subject (← rewriteCases plan cases) span]
  | stmt => return [stmt]

def rewriteStmts (plan : Plan) : List Stmt → Rewrite (List Stmt)
  | [] => return []
  | stmt :: stmts => do
    let first ← rewriteStmt plan stmt
    return first ++ (← rewriteStmts plan stmts)

def rewriteCases (plan : Plan) : List Case → Rewrite (List Case)
  | [] => return []
  | .on pattern body :: cases => do
    let body := withStatement (← rewriteStmts plan body)
    return .on pattern body :: (← rewriteCases plan cases)

end

/-- Whether a module imports the module of annotation forms under its own name. -/
def importsTyping (body : Block) : Bool :=
  body.any fun stmt =>
    match stmt with
    | .importModules names _ => names.any (·.boundName = "typing")
    | _ => false

def typingImport : Stmt :=
  .importModules [⟨"typing", none⟩] .synthetic

/-- Adds the import after the string that documents the module and the comments that follow. -/
def addTypingImport (body : Block) : Block :=
  let (documentation, rest) :=
    if (Syntax.docstring? body).isSome then (body.take 1, body.drop 1) else ([], body)
  let isComment := fun stmt : Stmt =>
    match stmt with
    | .comment _ => true
    | _ => false
  documentation ++ rest.takeWhile isComment ++ typingImport :: rest.dropWhile isComment

/-- A rewritten module and the functions with new bodies. -/
structure Rewritten where
  body : Block
  functions : List String

def rewriteModule (results : Results Datum) (strategy : Strategy) (body : Block)
    (digest : Digest := .standard) : Except Failure Rewritten := do
  let plan : Plan := ⟨.ofBlock body, results, strategy, digest⟩
  let (body, trace) ← (rewriteStmts plan body).run {}
  let body := if trace.usesTyping && !importsTyping body then addTypingImport body else body
  return ⟨body, trace.rewritten⟩

def rewriteText (results : Results Datum) (strategy : Strategy) (layout : Syntax.Layout)
    (source : String) (digest : Digest := .standard) : Except Failure String := do
  match Syntax.readModule source with
  | .error fault => throw (.malformed fault)
  | .ok body => return Syntax.printModule layout (← rewriteModule results strategy body digest).body

end StagedScript.Rewriting
