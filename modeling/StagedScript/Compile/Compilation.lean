import StagedScript.Compile.Options
import StagedScript.Compile.Source
import StagedScript.Rewriting.Module
import StagedScript.Staging.Precompute

/-!
# Compilation

A source file is evaluated ahead of time and rewritten with the results.  What
programs print on the way is kept even if there is no result.
-/

namespace StagedScript.Compile

open Staging (Results)

/-- The outcome of compiling a file. -/
structure Compilation where
  /-- The rewritten text. -/
  text : String
  results : Results Datum
  /-- The functions with new bodies, in source order. -/
  rewritten : List String
  /-- Where the text goes. -/
  destination : String

def Options.layout (o : Options) : Syntax.Layout :=
  { blankLines := o.format }

/-- Rewrites a source file with its results. -/
def rewritten (options : Options) (source : SourceFile) (results : Results Datum)
    (digest : Digest := .standard) : Except Failure Compilation := do
  match Syntax.readModule source.text with
  | .error fault => throw (.malformed fault)
  | .ok body =>
    let rewritten ← Rewriting.rewriteModule results options.strategy body digest
    return {
      text := Syntax.printModule options.layout rewritten.body
      results := results
      rewritten := rewritten.functions
      destination := options.output.getD (compiledPath source.path) }

/-- The results of a source file with the lines that were printed. -/
def evaluated (files : FileTree) (source : SourceFile) (digest : Digest := .standard) :
    Except Failure (Results Datum) × List String :=
  let (results, machine) := Staging.attempt (Staging.precompute source.spec source.text)
    (.ofPaths files source.searchPaths digest)
  (results.map (Results.view machine.heap), machine.output.toList)

/-- Compiles a file without writing anything; also gives the lines that were printed. -/
def compile (files : FileTree) (options : Options) (path : String)
    (digest : Digest := .standard) : Except Failure Compilation × List String :=
  match SourceFile.read files path options.isAbsolute with
  | .error failure => (.error failure, [])
  | .ok source =>
    let (results, lines) := evaluated files source digest
    (results.bind (rewritten options source · digest), lines)

def Compilation.write (files : FileTree) (c : Compilation) : Except Failure FileTree :=
  match files.write c.destination c.text with
  | .ok files => .ok files
  | .error e => .error (.io (c.destination ++ ": " ++ e.message))

/-- Compiles a file and writes the text to its destination; also gives the lines that were
printed. -/
def compileFile (files : FileTree) (options : Options) (path : String)
    (digest : Digest := .standard) : Except Failure (Compilation × FileTree) × List String :=
  let (compilation, lines) := compile files options path digest
  (do
    let c ← compilation
    return (c, ← c.write files), lines)

end StagedScript.Compile
