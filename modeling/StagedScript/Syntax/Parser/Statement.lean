import StagedScript.Syntax.Parser.Expression

/-!
# Reading modules

Simple statements take one line; the others have blocks.  A block is an
indented list of statements or one simple statement on the same line.
-/

namespace StagedScript.Syntax

open Text

namespace Parser

/-! ## Patterns -/

/-- The names after the first one of a dotted name, each with a dot in front. -/
def fieldsAfter : Nat → Expr → Parser Expr
  | 0, _ => throw .exhausted
  | n + 1, target => do
    if ← acceptSymbol .dot then
      let (field, span) ← identifier "attribute name"
      fieldsAfter n (.member target field span)
    else
      return target

/-- A number with a minus sign, of which the sign was taken. -/
def negativePattern (signSpan : Span) : Parser Pattern := do
  let ⟨kind, span⟩ ← advance
  match kind with
  | .integer magnitude =>
    if magnitude ≤ Nat.pow 2 63 then
      return .value (.constant (.int (Int64.ofInt (-magnitude))) signSpan)
    else
      invalid (.integerTooSmall (toString magnitude)) span
  | .float value => return .value (.constant (.float (-value)) signSpan)
  | _ => invalid .patternNotNumber span

/-- Patterns in brackets, of which the opening one was taken.  In parentheses a single pattern
without a comma stands for itself. -/
def bracketPattern (inner : Parser Pattern) (stop : Symbol) : Parser Pattern := do
  let (items, comma) ← bounded (itemsBefore stop inner)
  let _ ← expect (.symbol stop) "closing bracket of pattern"
  match items with
  | [item] => return if stop = .rightParen ∧ !comma then item else .sequence items
  | _ => return .sequence items

/-- A pattern that needs no brackets as an alternative. -/
def closedPattern (p : ExprParsers) (inner : Parser Pattern) : Parser Pattern := do
  let ⟨kind, span⟩ ← peekToken
  match kind with
  | .identifier name =>
    let second ← peekSecond
    let _ ← advance
    if name = "_" then return .wildcard
    else if second = some (.symbol .dot) then
      return .value (← bounded fun n => fieldsAfter n (.name name span))
    else return .capture name
  | .symbol .leftParen =>
    let _ ← advance
    bracketPattern inner .rightParen
  | .symbol .leftBracket =>
    let _ ← advance
    bracketPattern inner .rightBracket
  | .symbol .minus =>
    let _ ← advance
    negativePattern span
  | .integer _ | .float _ | .string _ | .keyword .trueKw | .keyword .falseKw | .keyword .noneKw =>
    return .value (← atom p)
  | _ => unexpected "pattern"

/-- Closed patterns with bars between them. -/
def orPattern (p : ExprParsers) (inner : Parser Pattern) : Parser Pattern := do
  let first ← closedPattern p inner
  if ← isAt (.symbol .pipe) then
    let others ← bounded (itemsAfter .pipe (fun _ => true) (closedPattern p inner))
    return .alternatives (first :: others)
  else
    return first

/-- A pattern that is nested less than `n` levels deep. -/
def patternWithin (p : ExprParsers) : Nat → Parser Pattern
  | 0 => throw .exhausted
  | n + 1 => orPattern p (patternWithin p n)

/-- The pattern of a case; commas make it a sequence. -/
def casePattern (p : ExprParsers) : Parser Pattern := do
  let pattern : Parser Pattern := bounded (patternWithin p)
  let first ← pattern
  if ← isAt (.symbol .comma) then
    return .sequence (first :: (← bounded (itemsAfter .comma (· ≠ .symbol .colon) pattern)))
  else
    return first

/-! ## Simple statements -/

def optionalExpr (expr : Parser Expr) : Parser (Option Expr) := do
  if startsExpr (← peek) then return some (← expr) else return none

/-- The names that follow the first one of a dotted name, with their dots. -/
def dottedTail : Nat → Parser String
  | 0 => throw .exhausted
  | n + 1 => do
    if ← acceptSymbol .dot then
      let (name, _) ← identifier "module name"
      return "." ++ name ++ (← dottedTail n)
    else
      return ""

def dottedName : Parser String := do
  let (name, _) ← identifier "module name"
  return name ++ (← bounded dottedTail)

/-- What is imported and the name to bind it to. -/
def aliasOf (name : Parser String) : Parser Alias := do
  let name ← name
  if ← accept (.keyword .asKw) then
    return ⟨name, some (← identifier "alias").1⟩
  else
    return ⟨name, none⟩

def importModules (span : Span) : Parser Stmt := do
  let first ← aliasOf dottedName
  let others ← bounded (itemsAfter .comma (fun _ => true) (aliasOf dottedName))
  return .importModules (first :: others) span

def leadingDots : Nat → Parser Nat
  | 0 => throw .exhausted
  | n + 1 => do
    if ← acceptSymbol .dot then return (← leadingDots n) + 1 else return 0

/-- An import of names from a module. -/
def importNames (span : Span) : Parser Stmt := do
  let level ← bounded leadingDots
  let module? ←
    if ← isAt (.keyword .importKw) then pure none
    else some <$> dottedName
  if module?.isNone ∧ level = 0 then
    let _ ← unexpected (α := Unit) "module name"
  let _ ← expect (.keyword .importKw) "'import'"
  let item := aliasOf (return (← identifier "imported name").1)
  let names ←
    if ← acceptSymbol .leftParen then
      itemsUntil .rightParen item
    else do
      let first ← item
      pure (first :: (← bounded (itemsAfter .comma (fun _ => true) item)))
  if names.isEmpty then unexpected "imported name"
  else return .importNames level module? names span

/-- The span of the first part of an expression that cannot be assigned to. -/
def badTarget? : Expr → Option Span
  | .name _ _ | .subscript _ _ _ | .member _ _ _ => none
  | .tuple items _ | .list items _ => badTargetIn? items
  | other => some other.span
where
  badTargetIn? : List Expr → Option Span
    | [] => none
    | item :: items => (badTarget? item).or (badTargetIn? items)

/-- Fails if the expression cannot be assigned to. -/
def checkTarget (target : Expr) : Parser Unit :=
  match badTarget? target with
  | some span => invalid .notAssignable span
  | none => return ()

/-- The operator of an assignment that combines the old value with another one. -/
def augmentOp? : Lexeme → Option BinaryOp
  | .symbol .plusEq => some .add
  | .symbol .minusEq => some .sub
  | .symbol .starEq => some .mul
  | _ => none

/-- An assignment or an expression. -/
def exprStmt (p : ExprParsers) : Parser Stmt := do
  let left ← exprListOf p.expr
  match augmentOp? (← peek) with
  | some op =>
    let _ ← advance
    checkTarget left
    return .augment op left (← exprListOf p.expr) left.span
  | none =>
    if ← acceptSymbol .eq then
      checkTarget left
      return .assign left (← exprListOf p.expr) left.span
    else
      return .expr left

/-- A statement on one line, with the end of the line. -/
def simpleStmt (p : ExprParsers) : Parser Stmt := do
  let ⟨kind, span⟩ ← peekToken
  let stmt ←
    match kind with
    | .keyword .returnKw => do
      let _ ← advance
      pure (.returnValue (← optionalExpr (exprListOf p.expr)) span)
    | .keyword .raiseKw => do
      let _ ← advance
      pure (.raise (← optionalExpr p.expr) span)
    | .keyword .importKw => do
      let _ ← advance
      importModules span
    | .keyword .fromKw => do
      let _ ← advance
      importNames span
    | .keyword .passKw => do
      let _ ← advance
      pure .pass
    | .keyword .breakKw => do
      let _ ← advance
      pure .breakLoop
    | .keyword .continueKw => do
      let _ ← advance
      pure .continueLoop
    | _ => exprStmt p
  endOfLine
  return stmt

/-! ## Statements with blocks -/

/-- The comments that come next. -/
def comments : Nat → Parser (List String)
  | 0 => throw .exhausted
  | n + 1 => do
    match ← peek with
    | .comment text =>
      let _ ← advance
      return text :: (← comments n)
    | _ => return []

/-- The statements up to the token `stop` or the end of the text, with empty lines between. -/
def stmtsUntil (stop : Lexeme) (stmt : Parser Stmt) : Nat → Parser Block
  | 0 => throw .exhausted
  | n + 1 => do
    let kind ← peek
    if kind = stop ∨ kind = .eof then
      return []
    else if kind = .newline then
      let _ ← advance
      stmtsUntil stop stmt n
    else
      let first ← stmt
      return first :: (← stmtsUntil stop stmt n)

/-- The block after a colon.  Comments before the indentation belong to it. -/
def suite (p : ExprParsers) (stmt : Parser Stmt) : Parser Block := do
  if ← accept .newline then
    let leading ← bounded comments
    let _ ← expect .indent "indented block"
    let body ← bounded (stmtsUntil .dedent stmt)
    let _ ← expect .dedent "end of block"
    return leading.map .comment ++ body
  else
    return [← simpleStmt p]

/-- A colon and a block. -/
def colonSuite (p : ExprParsers) (stmt : Parser Stmt) : Parser Block := do
  expectSymbol .colon
  suite p stmt

/-- An expression, if the symbol comes next, and the symbol. -/
def exprAfter (sign : Symbol) (p : ExprParsers) : Parser (Option Expr) := do
  if ← acceptSymbol sign then return some (← p.expr) else return none

/-- The parameters up to the closing parenthesis; after one with a default all need one. -/
def paramsAfter (p : ExprParsers) (sawDefault : Bool) : Nat → Parser (List Param)
  | 0 => throw .exhausted
  | n + 1 => do
    if ← isAt (.symbol .rightParen) then
      return []
    let (name, span) ← identifier "parameter name"
    let annotation ← exprAfter .colon p
    let default ← exprAfter .eq p
    if default.isNone ∧ sawDefault then
      invalid .missingDefault span
    else
      let param : Param := ⟨name, annotation, default, span⟩
      if ← acceptSymbol .comma then
        return param :: (← paramsAfter p (sawDefault || default.isSome) n)
      else
        return [param]

/-- The decorators of a function, one on each line. -/
def decorators (p : ExprParsers) : Nat → Parser (List Expr)
  | 0 => throw .exhausted
  | n + 1 => do
    if ← acceptSymbol .atSign then
      let decorator ← p.expr
      endOfLine
      skipNewlines
      return decorator :: (← decorators p n)
    else
      return []

/-- A function definition with its decorators. -/
def functionDef (p : ExprParsers) (stmt : Parser Stmt) : Parser Stmt := do
  let decorators ← bounded (decorators p)
  let span := (← expect (.keyword .defKw) "'def'").span
  let (name, _) ← identifier "function name"
  expectSymbol .leftParen
  let params ← bounded (paramsAfter p false)
  expectSymbol .rightParen
  let returnType ← exprAfter .arrow p
  return .function ⟨name, decorators, params, returnType, span⟩ (← colonSuite p stmt)

/-- A conditional from its `if` or `elif` on, with at most `n` branches. -/
def branch (p : ExprParsers) (stmt : Parser Stmt) : Nat → Parser Stmt
  | 0 => throw .exhausted
  | n + 1 => do
    let span := (← advance).span
    let condition ← p.expr
    let thenBlock ← colonSuite p stmt
    match ← peek with
    | .keyword .elifKw => return .branch condition thenBlock (some [← branch p stmt n]) span
    | .keyword .elseKw =>
      let _ ← advance
      return .branch condition thenBlock (some (← colonSuite p stmt)) span
    | _ => return .branch condition thenBlock none span

/-- The targets of a loop. -/
def loopTarget (p : ExprParsers) : Parser Expr := do
  let first ← postfixExpr p
  if ← isAt (.symbol .comma) then
    let others ← bounded (itemsAfter .comma (· ≠ .keyword .inKw) (postfixExpr p))
    return .tuple (first :: others) first.span
  else
    return first

/-- The cases of a match statement.  Comments between them are dropped. -/
def cases (p : ExprParsers) (stmt : Parser Stmt) : Nat → Parser (List Case)
  | 0 => throw .exhausted
  | n + 1 => do
    match ← peek with
    | .dedent | .eof => return []
    | .newline | .comment _ =>
      let _ ← advance
      cases p stmt n
    | .keyword .caseKw =>
      let _ ← advance
      let pattern ← casePattern p
      let body ← colonSuite p stmt
      return .on pattern body :: (← cases p stmt n)
    | _ => unexpected "'case'"

/-- A match statement, of which the first word was taken. -/
def matchOn (p : ExprParsers) (stmt : Parser Stmt) (span : Span) : Parser Stmt := do
  let subject ← exprListOf p.expr
  expectSymbol .colon
  endOfLine
  let _ ← bounded comments
  let _ ← expect .indent "indented block of cases"
  let found ← bounded (cases p stmt)
  let _ ← expect .dedent "end of match block"
  return .matchOn subject found span

/-- A statement whose blocks consist of statements that `stmt` reads. -/
def stmtOver (p : ExprParsers) (stmt : Parser Stmt) : Parser Stmt := do
  let ⟨kind, span⟩ ← peekToken
  match kind with
  | .comment text =>
    let _ ← advance
    return .comment text
  | .symbol .atSign | .keyword .defKw => functionDef p stmt
  | .keyword .ifKw => bounded (branch p stmt)
  | .keyword .whileKw =>
    let _ ← advance
    let condition ← p.expr
    return .whileLoop condition (← colonSuite p stmt) span
  | .keyword .forKw =>
    let _ ← advance
    let target ← loopTarget p
    let _ ← expect (.keyword .inKw) "'in'"
    let iterable ← exprListOf p.expr
    return .forLoop target iterable (← colonSuite p stmt) span
  | .keyword .matchKw =>
    let _ ← advance
    matchOn p stmt span
  | _ => simpleStmt p

/-- A statement whose blocks are nested less than `n` levels deep. -/
def stmtWithin (p : ExprParsers) : Nat → Parser Stmt
  | 0 => throw .exhausted
  | n + 1 => stmtOver p (stmtWithin p n)

def moduleBody (bound : Nat) : Parser Block :=
  bounded (stmtsUntil .eof (stmtWithin (exprParsers bound) bound))

end Parser

/-- Reads the text of a module. -/
def readModule (source : String) : Except SyntaxFault Block := do
  (Parser.moduleBody (nestingBound source)).readFrom (← tokens source)

end StagedScript.Syntax
