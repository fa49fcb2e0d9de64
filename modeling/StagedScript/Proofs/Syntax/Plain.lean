import StagedScript.Decimal.Notation
import StagedScript.Syntax.Tree

/-!
# Trees without places

What two trees of the same text share: the places of their nodes are left out.
A printed tree is read back in its plain form, in which a negative number is the
sign in front of its magnitude, a number that is not finite is the call that
yields it, alternatives of alternatives are alternatives, and an empty block is
the statement `pass`.
-/

namespace StagedScript.Syntax

/-- The expression that the text of a constant is read as. -/
def Constant.plain : Constant → Expr
  | .int n =>
    if n < 0 ∧ n ≠ Int64.minValue then .unary .neg (.literal (.int (-n))) .synthetic
    else .literal (.int n)
  | .float x =>
    match Decimal.decode x with
    | .notANumber => .callOf (.named "float") [.string "nan"]
    | .infinite negative =>
      let call := Expr.callOf (.named "float") [.string "inf"]
      if negative then .unary .neg call .synthetic else call
    | .finite b =>
      if b.negative then .unary .neg (.literal (.float (-x))) .synthetic else .literal (.float x)
  | c => .literal c

variable (constant : Constant → Expr)

mutual

/-- The expression without places, with the given expressions for its constants. -/
def Expr.strip : Expr → Expr
  | .name id _ => .named id
  | .constant value _ => constant value
  | .formatted parts _ => .formatted (stripParts parts) .synthetic
  | .tuple items _ => .tuple (stripItems items) .synthetic
  | .list items _ => .list (stripItems items) .synthetic
  | .dict entries _ => .dict (stripEntries entries) .synthetic
  | .member target field _ => .member target.strip field .synthetic
  | .subscript target index _ => .subscript target.strip index.strip .synthetic
  | .call callee args _ => .call callee.strip (stripItems args) .synthetic
  | .binary op left right _ => .binary op left.strip right.strip .synthetic
  | .unary op operand _ => .unary op operand.strip .synthetic
  | .conditional condition thenValue elseValue _ =>
    .conditional condition.strip thenValue.strip elseValue.strip .synthetic

def stripItems : List Expr → List Expr
  | [] => []
  | item :: items => item.strip :: stripItems items

def stripEntries : List Entry → List Entry
  | [] => []
  | .pair key value :: entries => .pair key.strip value.strip :: stripEntries entries

def stripParts : List FormattedPart → List FormattedPart
  | [] => []
  | .literal text :: parts => .literal text :: stripParts parts
  | .field value written :: parts => .field value.strip written :: stripParts parts

end

/-- The expression without places. -/
abbrev Expr.bare (e : Expr) : Expr :=
  e.strip .literal

/-- The expression that the text of an expression is read as, without places. -/
abbrev Expr.plain (e : Expr) : Expr :=
  e.strip Constant.plain

mutual

def Pattern.bare : Pattern → Pattern
  | .wildcard => .wildcard
  | .capture name => .capture name
  | .value expr => .value expr.bare
  | .sequence items => .sequence (barePatterns items)
  | .alternatives options => .alternatives (barePatterns options)

def barePatterns : List Pattern → List Pattern
  | [] => []
  | item :: items => item.bare :: barePatterns items

end

mutual

/-- The pattern without places, with the alternatives of alternatives as its own. -/
def Pattern.flat : Pattern → Pattern
  | .wildcard => .wildcard
  | .capture name => .capture name
  | .value expr => .value expr.bare
  | .sequence items => .sequence (flatPatterns items)
  | .alternatives options => .alternatives (flatOptions options)

def flatPatterns : List Pattern → List Pattern
  | [] => []
  | item :: items => item.flat :: flatPatterns items

/-- The patterns without places, and in place of alternatives these. -/
def flatOptions : List Pattern → List Pattern
  | [] => []
  | option :: options =>
    (match option with
      | .alternatives inner => flatOptions inner
      | option => [option.flat]) ++ flatOptions options

end

/-- How the parts of a statement are written when places are left out. -/
structure Outline where
  constant : Constant → Expr
  pattern : Pattern → Pattern
  /-- What stands for a block without statements. -/
  emptyBlock : Block

namespace Outline

/-- Only places are left out. -/
def bare : Outline :=
  ⟨.literal, Pattern.bare, []⟩

/-- What the text of a tree is read as. -/
def plain : Outline :=
  ⟨Constant.plain, Pattern.flat, [.pass]⟩

/-- What the text of a tree is read as in which numbers are finite and have no sign. -/
def unsigned : Outline :=
  { plain with constant := .literal }

end Outline

variable (o : Outline)

def Param.strip (p : Param) : Param :=
  ⟨p.name, p.annotation.map (Expr.strip o.constant), p.default.map (Expr.strip o.constant),
    .synthetic⟩

def FunctionHeader.strip (h : FunctionHeader) : FunctionHeader :=
  ⟨h.name, h.decorators.map (Expr.strip o.constant), h.params.map (Param.strip o),
    h.returnType.map (Expr.strip o.constant), .synthetic⟩

mutual

/-- The statement without places. -/
def Stmt.strip : Stmt → Stmt
  | .function header body => .function (header.strip o) (stripBlock body)
  | .branch condition thenBlock elseBlock _ =>
    .branch (condition.strip o.constant) (stripBlock thenBlock)
      (match elseBlock with
        | none => none
        | some block => some (stripBlock block))
      .synthetic
  | .whileLoop condition body _ =>
    .whileLoop (condition.strip o.constant) (stripBlock body) .synthetic
  | .forLoop target iterable body _ =>
    .forLoop (target.strip o.constant) (iterable.strip o.constant) (stripBlock body) .synthetic
  | .matchOn subject cases _ => .matchOn (subject.strip o.constant) (stripCases cases) .synthetic
  | .returnValue value _ => .returnValue (value.map (Expr.strip o.constant)) .synthetic
  | .raise exception _ => .raise (exception.map (Expr.strip o.constant)) .synthetic
  | .assign target value _ =>
    .assign (target.strip o.constant) (value.strip o.constant) .synthetic
  | .augment op target value _ =>
    .augment op (target.strip o.constant) (value.strip o.constant) .synthetic
  | .importModules names _ => .importModules names .synthetic
  | .importNames level module names _ => .importNames level module names .synthetic
  | .expr value => .expr (value.strip o.constant)
  | .comment text => .comment text
  | .pass => .pass
  | .breakLoop => .breakLoop
  | .continueLoop => .continueLoop

def stripBlock : List Stmt → List Stmt
  | [] => o.emptyBlock
  | stmt :: stmts => stmt.strip :: stripStmts stmts

def stripStmts : List Stmt → List Stmt
  | [] => []
  | stmt :: stmts => stmt.strip :: stripStmts stmts

def stripCases : List Case → List Case
  | [] => []
  | .on pattern body :: cases => .on (o.pattern pattern) (stripBlock body) :: stripCases cases

end

/-- The block without places. -/
abbrev bareBlock (body : Block) : Block :=
  stripBlock .bare body

theorem stripBlock_bare (body : List Stmt) : stripBlock .bare body = stripStmts .bare body := by
  cases body <;> rfl

end StagedScript.Syntax
