import StagedScript.Syntax.Tree

/-!
# Names that statements bind

The names that a statement gives values to in the scope in which it runs.  The
body of a function runs in a scope of its own.
-/

namespace StagedScript.Syntax

mutual

/-- The names that an assignment to the target binds. -/
def Expr.assigned : Expr → List String
  | .name id _ => [id]
  | .tuple items _ | .list items _ => allAssigned items
  | _ => []

def allAssigned : List Expr → List String
  | [] => []
  | target :: targets => target.assigned ++ allAssigned targets

end

mutual

def Pattern.captured : Pattern → List String
  | .wildcard | .value _ => []
  | .capture name => [name]
  | .sequence patterns | .alternatives patterns => allCaptured patterns

def allCaptured : List Pattern → List String
  | [] => []
  | pattern :: patterns => pattern.captured ++ allCaptured patterns

end

mutual

/-- The names that a statement binds in its scope. -/
def Stmt.bound : Stmt → List String
  | .function header _ => [header.name]
  | .branch _ thenBlock elseBlock _ =>
    boundIn thenBlock ++
      match elseBlock with
      | some block => boundIn block
      | none => []
  | .whileLoop _ body _ => boundIn body
  | .forLoop target _ body _ => target.assigned ++ boundIn body
  | .matchOn _ cases _ => boundInCases cases
  | .assign target _ _ | .augment _ target _ _ => target.assigned
  | .importModules names _ | .importNames _ _ names _ => names.map Alias.boundName
  | .returnValue _ _ | .raise _ _ | .expr _ | .comment _ | .pass | .breakLoop | .continueLoop => []

/-- The names that the statements of a block bind. -/
def boundIn : List Stmt → List String
  | [] => []
  | stmt :: stmts => stmt.bound ++ boundIn stmts

def boundInCases : List Case → List String
  | [] => []
  | .on pattern body :: cases => pattern.captured ++ boundIn body ++ boundInCases cases

end

end StagedScript.Syntax
