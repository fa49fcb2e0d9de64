import StagedScript.Syntax.Diagnostic
import StagedScript.Value.Exception

/-!
# Failures of a compilation

Everything that can end a compilation, with its report.
-/

namespace StagedScript

/-- Why there is no result. -/
inductive Failure
  | load (path reason : String)
  | malformed (fault : Syntax.SyntaxFault)
  /-- An exception that no code handled. -/
  | raised (e : Exception)
  | unknownStrategy (name : String)
  | missingResult (function : String)
  | unrepresentable (function repr : String)
  | io (reason : String)
  /-- The step budget ran out. -/
  | exhausted
  deriving Repr, DecidableEq

/-- The report of a failure. -/
def Failure.message : Failure → String
  | load path reason => s!"Failed to read {path}: {reason}"
  | malformed fault => fault.message
  | raised e => e.report
  | unknownStrategy name => s!"Invalid strategy '{name}'. Use 'match' or 'dict'"
  | missingResult function => s!"No precomputed result for comptime function '{function}'"
  | unrepresentable function repr =>
    s!"Result of comptime function '{function}' cannot be written as a literal: {repr}"
  | io reason => s!"IO error: {reason}"
  | exhausted => "Program takes too many steps"

end StagedScript
