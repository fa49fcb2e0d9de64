import StagedScript.Text.Span

/-!
# Syntax trees

The trees of expressions, patterns and statements.  Nodes that were read from
a text carry the span that diagnostics refer to; built nodes carry the
synthetic span.
-/

namespace StagedScript.Syntax

open Text

/-- The literal values. -/
inductive Constant
  | none
  | bool (value : Bool)
  | int (value : Int64)
  | float (value : Float)
  | string (value : String)
  deriving Repr, DecidableEq, Inhabited

/-- The operators with two operands. -/
inductive BinaryOp
  | add | sub | mul | div | floorDiv | mod | pow
  | eq | ne | lt | gt | le | ge | isIn | notIn
  | and | or
  deriving Repr, DecidableEq

namespace BinaryOp

def all : List BinaryOp :=
  [add, sub, mul, div, floorDiv, mod, pow, eq, ne, lt, gt, le, ge, isIn, notIn, and, or]

/-- The operator as it is written. -/
def text : BinaryOp → String
  | add => "+"
  | sub => "-"
  | mul => "*"
  | div => "/"
  | floorDiv => "//"
  | mod => "%"
  | pow => "**"
  | eq => "=="
  | ne => "!="
  | lt => "<"
  | gt => ">"
  | le => "<="
  | ge => ">="
  | isIn => "in"
  | notIn => "not in"
  | and => "and"
  | or => "or"

def ofText? (s : String) : Option BinaryOp :=
  all.find? (·.text == s)

theorem mem_all (op : BinaryOp) : op ∈ all := by
  cases op <;> decide

end BinaryOp

/-- The operators with one operand. -/
inductive UnaryOp
  | neg
  | pos
  | not
  deriving Repr, DecidableEq

mutual

/-- An expression. -/
inductive Expr
  | name (id : String) (span : Span)
  | constant (value : Constant) (span : Span)
  | formatted (parts : List FormattedPart) (span : Span)
  | tuple (items : List Expr) (span : Span)
  | list (items : List Expr) (span : Span)
  | dict (entries : List Entry) (span : Span)
  | member (target : Expr) (field : String) (span : Span)
  | subscript (target index : Expr) (span : Span)
  | call (callee : Expr) (args : List Expr) (span : Span)
  | binary (op : BinaryOp) (left right : Expr) (span : Span)
  | unary (op : UnaryOp) (operand : Expr) (span : Span)
  | conditional (condition thenValue elseValue : Expr) (span : Span)

/-- A stretch of a formatted string: text, or an expression whose plain or written form is put
in. -/
inductive FormattedPart
  | literal (text : String)
  | field (value : Expr) (written : Bool)

/-- A key of a dictionary and its value. -/
inductive Entry
  | pair (key value : Expr)

end

namespace Expr

instance : Inhabited Expr := ⟨.constant .none .synthetic⟩

def span : Expr → Span
  | name _ s | constant _ s | formatted _ s | tuple _ s | list _ s | dict _ s | member _ _ s
  | subscript _ _ s | call _ _ s | binary _ _ _ s | unary _ _ s | conditional _ _ _ s => s

/-- A name that was not read from a text. -/
def named (id : String) : Expr :=
  .name id .synthetic

def literal (value : Constant) : Expr :=
  .constant value .synthetic

def string (text : String) : Expr :=
  .literal (.string text)

def tupleOf (items : List Expr) : Expr :=
  .tuple items .synthetic

def callOf (callee : Expr) (args : List Expr) : Expr :=
  .call callee args .synthetic

/-- The name that the expression consists of. -/
def name? : Expr → Option String
  | name id _ => some id
  | _ => none

end Expr

/-- What a case of a match statement accepts. -/
inductive Pattern
  /-- Anything. -/
  | wildcard
  /-- Anything, and binds it. -/
  | capture (name : String)
  /-- What equals the value of an expression. -/
  | value (expr : Expr)
  /-- A sequence with one pattern for each item. -/
  | sequence (items : List Pattern)
  /-- What one of the patterns accepts. -/
  | alternatives (options : List Pattern)

instance : Inhabited Pattern := ⟨.wildcard⟩

/-- A name in an import, with the name to bind it to. -/
structure Alias where
  name : String
  rename : Option String
  deriving Repr, DecidableEq

/-- The name that an import binds: without a new name, the part before the first dot. -/
def Alias.boundName (a : Alias) : String :=
  a.rename.getD (String.ofList (a.name.toList.takeWhile (· != '.')))

/-- A parameter of a function. -/
structure Param where
  name : String
  annotation : Option Expr
  default : Option Expr
  span : Span

/-- A function definition without its body. -/
structure FunctionHeader where
  name : String
  decorators : List Expr
  params : List Param
  returnType : Option Expr
  span : Span

mutual

/-- A statement. -/
inductive Stmt
  | function (header : FunctionHeader) (body : List Stmt)
  /-- An `elif` is an `else` block with one conditional. -/
  | branch (condition : Expr) (thenBlock : List Stmt) (elseBlock : Option (List Stmt))
      (span : Span)
  | whileLoop (condition : Expr) (body : List Stmt) (span : Span)
  | forLoop (target iterable : Expr) (body : List Stmt) (span : Span)
  | matchOn (subject : Expr) (cases : List Case) (span : Span)
  | returnValue (value : Option Expr) (span : Span)
  | raise (exception : Option Expr) (span : Span)
  | assign (target value : Expr) (span : Span)
  | augment (op : BinaryOp) (target value : Expr) (span : Span)
  | importModules (names : List Alias) (span : Span)
  /-- The names of a module, which is relative to the package if the level is not zero. -/
  | importNames (level : Nat) (module : Option String) (names : List Alias) (span : Span)
  | expr (value : Expr)
  | comment (text : String)
  | pass
  | breakLoop
  | continueLoop

/-- A case of a match statement. -/
inductive Case
  | on (pattern : Pattern) (body : List Stmt)

end

instance : Inhabited Stmt := ⟨.pass⟩

/-- The statements of a module, of a function or of a branch. -/
abbrev Block := List Stmt

/-- The string that documents a block: its first statement, if it is a string. -/
def docstring? : Block → Option String
  | .expr (.constant (.string text) _) :: _ => some text
  | _ => none

end StagedScript.Syntax
