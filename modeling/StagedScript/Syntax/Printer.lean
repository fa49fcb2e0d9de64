import StagedScript.Decimal.Notation
import StagedScript.Syntax.Tree
import StagedScript.Text.Quoted
import StagedScript.Text.Search

/-!
# From trees to text

Expressions are printed with the fewest parentheses that keep their structure.
Statements are printed as lines with a level of indentation; the layout decides
only how wide a level is and whether blank lines stand around functions.
-/

namespace StagedScript.Syntax

open Text

/-! ## Expressions -/

namespace Strength

-- How strongly the forms of expressions bind, the weakest one first.

def conditional : Nat := 1

def disjunction : Nat := 2

def conjunction : Nat := 3

def negation : Nat := 4

def comparison : Nat := 5

def sum : Nat := 6

def product : Nat := 7

def sign : Nat := 8

def power : Nat := 9

def atom : Nat := 10

end Strength

/-- How strongly an operator binds its operands. -/
def BinaryOp.strength : BinaryOp → Nat
  | .or => Strength.disjunction
  | .and => Strength.conjunction
  | .eq | .ne | .lt | .gt | .le | .ge | .isIn | .notIn => Strength.comparison
  | .add | .sub => Strength.sum
  | .mul | .div | .floorDiv | .mod => Strength.product
  | .pow => Strength.power

/-- How strongly the left and the right operand have to bind to stand without parentheses. -/
def BinaryOp.operandStrengths (op : BinaryOp) : Nat × Nat :=
  if op = .pow then (Strength.atom, Strength.sign)
  else if op.strength = Strength.comparison then (op.strength + 1, op.strength + 1)
  else (op.strength, op.strength + 1)

/-- How strongly the outermost part of an expression binds; a negative number has a sign. -/
def Expr.strength : Expr → Nat
  | .conditional _ _ _ _ => Strength.conditional
  | .binary op _ _ _ => op.strength
  | .unary .not _ _ => Strength.negation
  | .unary _ _ _ => Strength.sign
  | .constant (.int n) _ => if n < 0 then Strength.sign else Strength.atom
  | .constant (.float x) _ => if Decimal.isNegative x then Strength.sign else Strength.atom
  | _ => Strength.atom

/-- The text of a literal. -/
def Constant.text (quote : Char) : Constant → String
  | .none => "None"
  | .bool true => "True"
  | .bool false => "False"
  | .int n => toString n.toInt
  | .float x => Decimal.text Decimal.sourceSpecials x
  | .string s => sourceQuoted quote s

def inParens (text : String) : String :=
  "(" ++ text ++ ")"

def commas (texts : List String) : String :=
  ", ".intercalate texts

/-- The items of a tuple in parentheses; a single one is followed by a comma. -/
def tupleText : List String → String
  | [item] => "(" ++ item ++ ",)"
  | items => inParens (commas items)

/-- The quote for strings inside of the fields of a formatted string. -/
def otherQuote (quote : Char) : Char :=
  if quote = '"' then '\'' else '"'

/-- The literal text of a formatted string: escaped, with braces doubled. -/
def formattedLiteral (quote : Char) (text : String) : String :=
  String.ofList <| (escape true quote text).flatMap fun c =>
    if c = '\x7b' ∨ c = '\x7d' then [c, c] else [c]

mutual

/-- The text of an expression with strings in `quote`, in parentheses if it binds less strongly
than `least`. -/
def Expr.render (quote : Char) (least : Nat) (e : Expr) : String :=
  let text :=
    match e with
    | .name id _ => id
    | .constant value _ => value.text quote
    | .formatted parts _ =>
      "f" ++ String.singleton quote ++ renderParts quote parts ++ String.singleton quote
    | .tuple items _ => tupleText (renderItems quote items)
    | .list items _ => "[" ++ commas (renderItems quote items) ++ "]"
    | .dict entries _ => "\x7b" ++ commas (renderEntries quote entries) ++ "\x7d"
    | .member target field _ => target.render quote Strength.atom ++ "." ++ field
    | .subscript target index _ =>
      let inside :=
        match index with
        | .tuple (first :: second :: others) _ =>
          commas (renderItems quote (first :: second :: others))
        | index => index.render quote 0
      target.render quote Strength.atom ++ "[" ++ inside ++ "]"
    | .call callee args _ =>
      callee.render quote Strength.atom ++ inParens (commas (renderItems quote args))
    | .binary op left right _ =>
      let (leftLeast, rightLeast) := op.operandStrengths
      left.render quote leftLeast ++ " " ++ op.text ++ " " ++ right.render quote rightLeast
    | .unary .not operand _ => "not " ++ operand.render quote Strength.negation
    | .unary .neg operand _ => "-" ++ operand.render quote Strength.sign
    | .unary .pos operand _ => "+" ++ operand.render quote Strength.sign
    | .conditional condition thenValue elseValue _ =>
      thenValue.render quote Strength.disjunction
        ++ " if " ++ condition.render quote Strength.disjunction
        ++ " else " ++ elseValue.render quote Strength.conditional
  if e.strength < least then inParens text else text

def renderItems (quote : Char) : List Expr → List String
  | [] => []
  | item :: items => item.render quote 0 :: renderItems quote items

def renderEntries (quote : Char) : List Entry → List String
  | [] => []
  | .pair key value :: entries =>
    (key.render quote 0 ++ ": " ++ value.render quote 0) :: renderEntries quote entries

/-- The inside of a formatted string. -/
def renderParts (quote : Char) : List FormattedPart → String
  | [] => ""
  | .literal text :: parts => formattedLiteral quote text ++ renderParts quote parts
  | .field value written :: parts =>
    "\x7b" ++ value.render (otherQuote quote) 0 ++ (if written then "!r" else "") ++ "\x7d"
      ++ renderParts quote parts

end

def Expr.print (e : Expr) : String :=
  e.render '"' 0

mutual

/-- The text of a pattern. -/
def Pattern.print : Pattern → String
  | .wildcard => "_"
  | .capture name => name
  | .value expr => expr.print
  | .sequence items => tupleText (printPatterns items)
  | .alternatives options => " | ".intercalate (printPatterns options)

def printPatterns : List Pattern → List String
  | [] => []
  | item :: items => item.print :: printPatterns items

end

/-! ## Statements -/

/-- How a module is laid out. -/
structure Layout where
  indentWidth : Nat := 4
  /-- Whether blank lines stand around functions. -/
  blankLines : Bool := true
  deriving Repr, DecidableEq

/-- A line and its level of indentation. -/
structure Line where
  level : Nat
  text : String
  deriving Repr, DecidableEq

/-- The text of a line with its end; a blank line gets no indentation. -/
def Line.print (layout : Layout) (line : Line) : String :=
  String.ofList (List.replicate (line.level * layout.indentWidth) ' ') ++ line.text ++ "\n"

def Alias.print (a : Alias) : String :=
  match a.rename with
  | some new => a.name ++ " as " ++ new
  | none => a.name

/-- The text of a parameter; blanks stand around the equals sign only after an annotation. -/
def Param.print (p : Param) : String :=
  match p.annotation, p.default with
  | some annotation, some default => p.name ++ ": " ++ annotation.print ++ " = " ++ default.print
  | some annotation, none => p.name ++ ": " ++ annotation.print
  | none, some default => p.name ++ "=" ++ default.print
  | none, none => p.name

/-- The lines before the body of a function. -/
def FunctionHeader.lines (level : Nat) (h : FunctionHeader) : List Line :=
  let result :=
    match h.returnType with
    | some type => " -> " ++ type.print
    | none => ""
  h.decorators.map (fun d => ⟨level, "@" ++ d.print⟩)
    ++ [⟨level, "def " ++ h.name ++ inParens (commas (h.params.map Param.print)) ++ result ++ ":"⟩]

def Stmt.isFunction : Stmt → Bool
  | .function _ _ => true
  | _ => false

def Stmt.isComment : Stmt → Bool
  | .comment _ => true
  | _ => false

/-- Whether blank lines separate a statement from the rest of its block.  They go around
functions; comments right above a function stay with it. -/
def needsGap (before : Stmt) (rest : Block) : Bool :=
  if before.isFunction then true
  else if before.isComment then false
  else
    match rest.dropWhile Stmt.isComment with
    | next :: _ => next.isFunction
    | [] => false

/-- The blank lines before the rest of a block. -/
def gapLines (layout : Layout) (level : Nat) (before : Stmt) (rest : Block) : List Line :=
  if layout.blankLines && needsGap before rest then
    List.replicate (if level = 0 then 2 else 1) ⟨0, ""⟩
  else
    []

def keywordText (keyword : String) : Option Expr → String
  | some value => keyword ++ " " ++ value.print
  | none => keyword

mutual

/-- The lines of a statement; a conditional starts with the given keyword. -/
def Stmt.lines (layout : Layout) (level : Nat) (keyword : String) : Stmt → List Line
  | .function header body => header.lines level ++ bodyLines layout (level + 1) body
  | .branch condition thenBlock elseBlock _ =>
    ⟨level, keyword ++ " " ++ condition.print ++ ":"⟩ :: bodyLines layout (level + 1) thenBlock
      ++ match elseBlock with
        | none => []
        | some [.branch condition thenBlock elseBlock span] =>
          Stmt.lines layout level "elif" (.branch condition thenBlock elseBlock span)
        | some block => ⟨level, "else:"⟩ :: bodyLines layout (level + 1) block
  | .whileLoop condition body _ =>
    ⟨level, "while " ++ condition.print ++ ":"⟩ :: bodyLines layout (level + 1) body
  | .forLoop target iterable body _ =>
    ⟨level, "for " ++ target.print ++ " in " ++ iterable.print ++ ":"⟩
      :: bodyLines layout (level + 1) body
  | .matchOn subject cases _ =>
    ⟨level, "match " ++ subject.print ++ ":"⟩ :: casesLines layout (level + 1) cases
  | .returnValue value _ => [⟨level, keywordText "return" value⟩]
  | .raise exception _ => [⟨level, keywordText "raise" exception⟩]
  | .assign target value _ => [⟨level, target.print ++ " = " ++ value.print⟩]
  | .augment op target value _ =>
    [⟨level, target.print ++ " " ++ op.text ++ "= " ++ value.print⟩]
  | .importModules names _ => [⟨level, "import " ++ commas (names.map Alias.print)⟩]
  | .importNames dots module names _ =>
    [⟨level, "from " ++ String.ofList (List.replicate dots '.') ++ module.getD "" ++ " import "
      ++ commas (names.map Alias.print)⟩]
  | .expr value => [⟨level, value.print⟩]
  | .comment text => [⟨level, "#" ++ text⟩]
  | .pass => [⟨level, "pass"⟩]
  | .breakLoop => [⟨level, "break"⟩]
  | .continueLoop => [⟨level, "continue"⟩]

/-- The lines of a block.  A string of several lines at its start is printed in triple quotes. -/
def bodyLines (layout : Layout) (level : Nat) : List Stmt → List Line
  | [] => [⟨level, "pass"⟩]
  | first :: rest =>
    let firstLines :=
      match first with
      | .expr (.constant (.string text) _) =>
        if text.contains '\n' then [⟨level, tripleQuoted text⟩]
        else first.lines layout level "if"
      | _ => first.lines layout level "if"
    firstLines ++ linesAfter layout level first rest

/-- The lines of what follows a statement in its block. -/
def linesAfter (layout : Layout) (level : Nat) (before : Stmt) : List Stmt → List Line
  | [] => []
  | next :: rest =>
    gapLines layout level before (next :: rest) ++ next.lines layout level "if"
      ++ linesAfter layout level next rest

def casesLines (layout : Layout) (level : Nat) : List Case → List Line
  | [] => []
  | .on pattern body :: cases =>
    ⟨level, "case " ++ pattern.print ++ ":"⟩ :: bodyLines layout (level + 1) body
      ++ casesLines layout level cases

end

def printModule (layout : Layout) (body : Block) : String :=
  String.join ((bodyLines layout 0 body).map (Line.print layout))

end StagedScript.Syntax
