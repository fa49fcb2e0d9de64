import StagedScript.Decimal.Binary
import StagedScript.Syntax.Lexer
import StagedScript.Syntax.Parser.Basic
import StagedScript.Syntax.Parser.Formatted
import StagedScript.Syntax.Tree

/-!
# Reading expressions

There is one parser for each level of binding strength.  Where a level needs
one that binds less, it takes it from `ExprParsers`, the parsers for nested
parts; `exprParsers` ties the knot with a bound on the depth of nesting.
-/

namespace StagedScript.Syntax

open Text

namespace Parser

/-- The parsers for the nested parts of an expression. -/
structure ExprParsers where
  expr : Parser Expr
  /-- An operand of a sign. -/
  signed : Parser Expr
  /-- An operand of `not`. -/
  negation : Parser Expr
  /-- The expression that makes up a whole text. -/
  whole : String → Except SyntaxFault Expr

/-- An operation, from the start of its first operand to the end of its second. -/
def binary (op : BinaryOp) (left right : Expr) : Expr :=
  .binary op left right (left.span.merge right.span)

def startsExpr : Lexeme → Bool
  | .identifier _ | .integer _ | .float _ | .string _ | .formatted _ => true
  | .keyword word => word ∈ [.trueKw, .falseKw, .noneKw, .notKw]
  | .symbol sign => sign ∈ [.leftParen, .leftBracket, .leftBrace, .minus, .plus]
  | _ => false

/-- A whole number without a sign. -/
def integerLiteral (magnitude : Nat) (span : Span) : Parser Constant :=
  if magnitude < Nat.pow 2 63 then return .int (Int64.ofNat magnitude)
  else invalid (.integerTooLarge (toString magnitude)) span

/-- The texts of the strings that follow directly. -/
def adjacentStrings : Nat → Parser String
  | 0 => throw .exhausted
  | n + 1 => do
    match ← peek with
    | .string text =>
      let _ ← advance
      return text ++ (← adjacentStrings n)
    | _ => return ""

/-- The parts of a formatted string; the first fault from the left counts. -/
def formattedParts (p : ExprParsers) (span : Span) (body : String) :
    Except SyntaxFault (List FormattedPart) := do
  let (pieces, fault) := bodyPieces body
  let parts ← pieces.mapM fun piece =>
    match piece with
    | .literal text => pure (.literal text)
    | .field text written => return .field (← p.whole text) written
  match fault with
  | some defect => throw (.invalid defect span)
  | none => return parts

/-- What follows an opening parenthesis: nothing, one expression or a tuple. -/
def parenthesized (p : ExprParsers) (span : Span) : Parser Expr := do
  if ← acceptSymbol .rightParen then
    return .tuple [] span
  let first ← p.expr
  if ← acceptSymbol .rightParen then
    return first
  let others ← bounded (itemsAfter .comma (· ≠ .symbol .rightParen) p.expr)
  expectSymbol .rightParen
  return .tuple (first :: others) span

def dictEntry (p : ExprParsers) : Parser Entry := do
  let key ← p.expr
  let _ ← expect (.symbol .colon) "':' in dict literal"
  return .pair key (← p.expr)

/-- A name, a literal or an expression in brackets. -/
def atom (p : ExprParsers) : Parser Expr := do
  let ⟨kind, span⟩ ← peekToken
  match kind with
  | .identifier name =>
    let _ ← advance
    return .name name span
  | .integer magnitude =>
    let _ ← advance
    return .constant (← integerLiteral magnitude span) span
  | .float value =>
    let _ ← advance
    return .constant (.float value) span
  | .keyword .trueKw =>
    let _ ← advance
    return .constant (.bool true) span
  | .keyword .falseKw =>
    let _ ← advance
    return .constant (.bool false) span
  | .keyword .noneKw =>
    let _ ← advance
    return .constant .none span
  | .string text =>
    let _ ← advance
    return .constant (.string (text ++ (← bounded adjacentStrings))) span
  | .formatted body =>
    let _ ← advance
    return .formatted (← formattedParts p span body) span
  | .symbol .leftParen =>
    let _ ← advance
    parenthesized p span
  | .symbol .leftBracket =>
    let _ ← advance
    return .list (← itemsUntil .rightBracket p.expr) span
  | .symbol .leftBrace =>
    let _ ← advance
    return .dict (← itemsUntil .rightBrace (dictEntry p)) span
  | _ => unexpected "expression"

/-- Extends an expression while `extend` finds something to extend it with. -/
def extendAll (extend : Expr → Parser (Option Expr)) : Nat → Expr → Parser Expr
  | 0, _ => throw .exhausted
  | n + 1, expr => do
    match ← extend expr with
    | some longer => extendAll extend n longer
    | none => return expr

/-- Expressions with commas between them; more than one, or a comma at the end, make a tuple. -/
def exprListOf (expr : Parser Expr) : Parser Expr := do
  let first ← expr
  if ← isAt (.symbol .comma) then
    return .tuple (first :: (← bounded (itemsAfter .comma startsExpr expr))) first.span
  else
    return first

/-- A call, an attribute or a subscript after an expression. -/
def trailer (p : ExprParsers) (target : Expr) : Parser (Option Expr) := do
  if ← acceptSymbol .leftParen then
    return some (.call target (← itemsUntil .rightParen p.expr) target.span)
  else if ← acceptSymbol .dot then
    return some (.member target (← identifier "attribute name").1 target.span)
  else if ← acceptSymbol .leftBracket then
    let index ← exprListOf p.expr
    expectSymbol .rightBracket
    return some (.subscript target index target.span)
  else
    return none

/-- An atom with calls, attributes and subscripts. -/
def postfixExpr (p : ExprParsers) : Parser Expr := do
  let start ← atom p
  bounded fun n => extendAll (trailer p) n start

/-- A power; its exponent may have a sign. -/
def power (p : ExprParsers) : Parser Expr := do
  let base ← postfixExpr p
  if ← acceptSymbol .starStar then
    return binary .pow base (← p.signed)
  else
    return base

/-- A power with signs in front.  The least integer has no positive counterpart, so it is read
together with its sign. -/
def signed (p : ExprParsers) : Parser Expr := do
  let op? : Option UnaryOp :=
    match ← peek with
    | .symbol .minus => some .neg
    | .symbol .plus => some .pos
    | _ => none
  match op? with
  | none => power p
  | some op =>
    let span := (← advance).span
    if op = .neg ∧ (← peek) = .integer (Nat.pow 2 63) then
      let digits := (← advance).span
      return .constant (.int Int64.minValue) (span.merge digits)
    else
      return .unary op (← p.signed) span

/-- Operands with operators of one level between them, grouped from the left. -/
def chain (op? : Lexeme → Option BinaryOp) (operand : Parser Expr) : Parser Expr := do
  let first ← operand
  let extend (left : Expr) : Parser (Option Expr) := do
    match op? (← peek) with
    | some op =>
      let _ ← advance
      return some (binary op left (← operand))
    | none => return none
  bounded fun n => extendAll extend n first

def productOp? : Lexeme → Option BinaryOp
  | .symbol .star => some .mul
  | .symbol .slash => some .div
  | .symbol .slashSlash => some .floorDiv
  | .symbol .percent => some .mod
  | _ => none

def sumOp? : Lexeme → Option BinaryOp
  | .symbol .plus => some .add
  | .symbol .minus => some .sub
  | _ => none

def sum (p : ExprParsers) : Parser Expr :=
  chain sumOp? (chain productOp? (signed p))

/-- Takes the operator of a comparison. -/
def comparisonOp? : Parser (Option BinaryOp) := do
  let op? : Option BinaryOp :=
    match ← peek, ← peekSecond with
    | .symbol .eqEq, _ => some .eq
    | .symbol .notEq, _ => some .ne
    | .symbol .lt, _ => some .lt
    | .symbol .gt, _ => some .gt
    | .symbol .ltEq, _ => some .le
    | .symbol .gtEq, _ => some .ge
    | .keyword .inKw, _ => some .isIn
    | .keyword .notKw, some (.keyword .inKw) => some .notIn
    | _, _ => none
  if op?.isSome then
    let _ ← advance
  if op? = some .notIn then
    let _ ← advance
  return op?

/-- A sum, or two sums that are compared. -/
def comparison (p : ExprParsers) : Parser Expr := do
  let left ← sum p
  match ← comparisonOp? with
  | some op => return binary op left (← sum p)
  | none => return left

/-- A comparison with any number of `not` in front. -/
def negation (p : ExprParsers) : Parser Expr := do
  if ← isAt (.keyword .notKw) then
    let span := (← advance).span
    return .unary .not (← p.negation) span
  else
    comparison p

def andOp? : Lexeme → Option BinaryOp
  | .keyword .andKw => some .and
  | _ => none

def orOp? : Lexeme → Option BinaryOp
  | .keyword .orKw => some .or
  | _ => none

def disjunction (p : ExprParsers) : Parser Expr :=
  chain orOp? (chain andOp? (negation p))

/-- A disjunction, or two of them with a condition between. -/
def conditional (p : ExprParsers) : Parser Expr := do
  let value ← disjunction p
  if ← accept (.keyword .ifKw) then
    let condition ← disjunction p
    let _ ← expect (.keyword .elseKw) "'else' in conditional expression"
    return .conditional condition value (← p.expr) value.span
  else
    return value

/-- An expression list that makes up all of a token list. -/
def wholeExpr (expr : Parser Expr) : Parser Expr := do
  let value ← exprListOf expr
  skipNewlines
  if ← isAt .eof then return value else unexpected "end of expression"

/-- The parsers of expressions that are nested less than `n` levels deep. -/
def exprParsers : Nat → ExprParsers
  | 0 =>
    { expr := throw .exhausted
      signed := throw .exhausted
      negation := throw .exhausted
      whole := fun _ => throw .exhausted }
  | n + 1 =>
    { expr := fun rounds tokens => conditional (exprParsers n) rounds tokens
      signed := fun rounds tokens => signed (exprParsers n) rounds tokens
      negation := fun rounds tokens => negation (exprParsers n) rounds tokens
      whole := fun text => do
        (wholeExpr fun rounds tokens => conditional (exprParsers n) rounds tokens).readFrom
          (← tokens text) }

end Parser

/-- A depth of nesting that no text of this length exceeds. -/
def nestingBound (source : String) : Nat :=
  4 * (source.length + 2)

/-- Reads a text that consists of one expression. -/
def readExpr (source : String) : Except SyntaxFault Expr :=
  (Parser.exprParsers (nestingBound source)).whole source

end StagedScript.Syntax
