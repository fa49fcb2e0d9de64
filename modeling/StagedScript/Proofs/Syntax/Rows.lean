import StagedScript.Proofs.Syntax.PatternText

/-!
# The rows of printed statements

A printed module is a list of rows: the lexemes of a line of code at its level
of indentation, or a comment.  From the rows the layout marks follow, and with
them all the lexemes of the text.
-/

namespace StagedScript.Syntax

open Text

def dottedLexemes : List String → List Lexeme
  | [] => []
  | first :: others => .identifier first :: fieldLexemes others

/-- The lexemes of an imported name, of which the own ones are given. -/
def Alias.lexemes (name : List Lexeme) (a : Alias) : List Lexeme :=
  name ++
    match a.rename with
    | some new => [.keyword .asKw, .identifier new]
    | none => []

/-- The lexemes of an expression with a symbol in front, if there is one. -/
def lexemesAfter (sign : Symbol) : Option Expr → List Lexeme
  | some e => .symbol sign :: e.lexemes 0
  | none => []

def Param.lexemes (p : Param) : List Lexeme :=
  .identifier p.name :: (lexemesAfter .colon p.annotation ++ lexemesAfter .eq p.default)

def FunctionHeader.lexemes (h : FunctionHeader) : List Lexeme :=
  .keyword .defKw :: .identifier h.name
    :: (bracketed .leftParen .rightParen (separated (h.params.map Param.lexemes))
      ++ (lexemesAfter .arrow h.returnType ++ [.symbol .colon]))

/-- The symbol of an assignment that combines the old value with another one. -/
def BinaryOp.augmented : BinaryOp → Symbol
  | .add => .plusEq
  | .sub => .minusEq
  | _ => .starEq

def keywordLexemes (word : Keyword) : Option Expr → List Lexeme
  | some e => .keyword word :: e.lexemes 0
  | none => [.keyword word]

/-- A line without its indentation. -/
inductive Row
  | code (level : Nat) (ks : List Lexeme)
  | comment (text : String)

/-- The rows before the body of a function. -/
def FunctionHeader.rows (level : Nat) (h : FunctionHeader) : List Row :=
  h.decorators.map (fun d => .code level (.symbol .atSign :: d.lexemes 0))
    ++ [.code level h.lexemes]

/-- Whether an `else` block is written as an `elif`. -/
def isElif : List Stmt → Bool
  | [.branch _ _ _ _] => true
  | _ => false

mutual

/-- The rows of a statement; a conditional starts with the given keyword. -/
def Stmt.rows (level : Nat) (keyword : Keyword) : Stmt → List Row
  | .function header body => header.rows level ++ bodyRows (level + 1) body
  | .branch condition thenBlock elseBlock _ =>
    .code level (.keyword keyword :: (condition.lexemes 0 ++ [.symbol .colon]))
      :: (bodyRows (level + 1) thenBlock
        ++ match elseBlock with
          | none => []
          | some block =>
            if isElif block then blockRows level .elifKw block
            else
              .code level [.keyword .elseKw, .symbol .colon] :: bodyRows (level + 1) block)
  | .whileLoop condition body _ =>
    .code level (.keyword .whileKw :: (condition.lexemes 0 ++ [.symbol .colon]))
      :: bodyRows (level + 1) body
  | .forLoop target iterable body _ =>
    .code level (.keyword .forKw
        :: (target.lexemes 0 ++ .keyword .inKw :: (iterable.lexemes 0 ++ [.symbol .colon])))
      :: bodyRows (level + 1) body
  | .matchOn subject cases _ =>
    .code level (.keyword .matchKw :: (subject.lexemes 0 ++ [.symbol .colon]))
      :: caseRows (level + 1) cases
  | .returnValue value _ => [.code level (keywordLexemes .returnKw value)]
  | .raise exception _ => [.code level (keywordLexemes .raiseKw exception)]
  | .assign target value _ => [.code level (target.lexemes 0 ++ .symbol .eq :: value.lexemes 0)]
  | .augment op target value _ =>
    [.code level (target.lexemes 0 ++ .symbol op.augmented :: value.lexemes 0)]
  | .importModules names _ =>
    [.code level (.keyword .importKw
      :: separated (names.map fun a => a.lexemes (dottedLexemes (nameParts a.name))))]
  | .importNames dots module names _ =>
    [.code level (.keyword .fromKw :: (List.replicate dots (.symbol .dot)
      ++ (module.elim [] (fun name => dottedLexemes (nameParts name))
        ++ .keyword .importKw :: separated (names.map fun a => a.lexemes [.identifier a.name]))))]
  | .expr value => [.code level (value.lexemes 0)]
  | .comment text => [.comment (trimEnd text)]
  | .pass => [.code level [.keyword .passKw]]
  | .breakLoop => [.code level [.keyword .breakKw]]
  | .continueLoop => [.code level [.keyword .continueKw]]

/-- The rows of a block; one without statements is written as the statement `pass`. -/
def bodyRows (level : Nat) : List Stmt → List Row
  | [] => [.code level [.keyword .passKw]]
  | stmt :: stmts => stmt.rows level .ifKw ++ blockRows level .ifKw stmts

/-- The rows of statements; conditionals among them start with the given keyword. -/
def blockRows (level : Nat) (keyword : Keyword) : List Stmt → List Row
  | [] => []
  | stmt :: stmts => stmt.rows level keyword ++ blockRows level keyword stmts

def caseRows (level : Nat) : List Case → List Row
  | [] => []
  | .on pattern body :: cases =>
    .code level (.keyword .caseKw :: (pattern.lexemes ++ [.symbol .colon]))
      :: (bodyRows (level + 1) body ++ caseRows level cases)

end

/-- The layout marks in front of a line if `current` blocks are open. -/
def layoutKinds (current level : Nat) : List Lexeme :=
  if current < level then [.indent] else List.replicate (current - level) .dedent

/-- The lexemes of rows up to the end of the text. -/
def rowKinds (current : Nat) : List Row → List Lexeme
  | [] => List.replicate current .dedent ++ [.eof]
  | .comment text :: rows => .comment text :: rowKinds current rows
  | .code level ks :: rows =>
    layoutKinds current level ++ (ks ++ .newline :: rowKinds level rows)

/-- No line of code opens more than one block. -/
def RowsFit (current : Nat) : List Row → Prop
  | [] => True
  | .comment _ :: rows => RowsFit current rows
  | .code level _ :: rows => level ≤ current + 1 ∧ RowsFit level rows

theorem RowsFit.mono {current current' : Nat} {rows : List Row} (hle : current ≤ current')
    (h : RowsFit current rows) : RowsFit current' rows := by
  induction rows with
  | nil => trivial
  | cons row rows ih =>
    cases row with
    | comment text => exact ih h
    | code level ks => exact ⟨Nat.le_trans h.1 (Nat.succ_le_succ hle), h.2⟩

theorem rowsFit_header {current level : Nat} {rows : List Row} (h : FunctionHeader)
    (hle : level ≤ current + 1) (hrows : RowsFit level rows) :
    RowsFit current (h.rows level ++ rows) := by
  rw [FunctionHeader.rows]
  induction h.decorators generalizing current with
  | nil => exact ⟨hle, hrows⟩
  | cons d ds ih => exact ⟨hle, ih (Nat.le_succ level)⟩

mutual

theorem Stmt.rowsFit (s : Stmt) {current level : Nat} {keyword : Keyword} {rows : List Row}
    (hle : level ≤ current + 1) (hrows : RowsFit (min current level) rows) :
    RowsFit current (s.rows level keyword ++ rows) := by
  have hrows' : RowsFit level rows := hrows.mono (Nat.min_le_right _ _)
  have hbody : RowsFit (min level (level + 1)) rows := hrows'.mono (by omega)
  match s with
  | .function header body =>
    rw [Stmt.rows, List.append_assoc]
    exact rowsFit_header header hle (Body.rowsFit body (Nat.le_refl _) hbody)
  | .branch condition thenBlock none span =>
    rw [Stmt.rows, List.append_nil, List.cons_append]
    exact ⟨hle, Body.rowsFit thenBlock (Nat.le_refl _) hbody⟩
  | .branch condition thenBlock (some block) span =>
    rw [Stmt.rows, List.cons_append, List.append_assoc]
    have helse : RowsFit level ((if isElif block then blockRows level .elifKw block
        else .code level [.keyword .elseKw, .symbol .colon] :: bodyRows (level + 1) block)
          ++ rows) := by
      by_cases helif : isElif block
      · rw [if_pos helif]
        exact Block.rowsFit block (Nat.le_succ level) (hrows'.mono (by omega))
      · rw [if_neg helif]
        exact ⟨Nat.le_succ level, Body.rowsFit block (Nat.le_refl _) hbody⟩
    exact ⟨hle, Body.rowsFit thenBlock (Nat.le_refl _) (helse.mono (by omega))⟩
  | .whileLoop condition body _ | .forLoop target iterable body _ =>
    exact ⟨hle, Body.rowsFit body (Nat.le_refl _) hbody⟩
  | .matchOn subject cases _ => exact ⟨hle, Cases.rowsFit cases (Nat.le_refl _) hbody⟩
  | .comment text => exact hrows.mono (Nat.min_le_left _ _)
  | .returnValue _ _ | .raise _ _ | .assign _ _ _ | .augment _ _ _ _ | .importModules _ _
  | .importNames _ _ _ _ | .expr _ | .pass | .breakLoop | .continueLoop => exact ⟨hle, hrows'⟩

theorem Body.rowsFit (stmts : List Stmt) {current level : Nat} {rows : List Row}
    (hle : level ≤ current + 1) (hrows : RowsFit (min current level) rows) :
    RowsFit current (bodyRows level stmts ++ rows) := by
  match stmts with
  | [] => exact ⟨hle, hrows.mono (Nat.min_le_right _ _)⟩
  | s :: stmts =>
    rw [bodyRows, List.append_assoc]
    apply Stmt.rowsFit s hle
    apply Block.rowsFit stmts
    · omega
    · exact hrows.mono (by omega)

theorem Block.rowsFit (stmts : List Stmt) {current level : Nat} {keyword : Keyword}
    {rows : List Row} (hle : level ≤ current + 1) (hrows : RowsFit (min current level) rows) :
    RowsFit current (blockRows level keyword stmts ++ rows) := by
  match stmts with
  | [] => exact hrows.mono (Nat.min_le_left _ _)
  | s :: stmts =>
    rw [blockRows, List.append_assoc]
    apply Stmt.rowsFit s hle
    apply Block.rowsFit stmts
    · omega
    · exact hrows.mono (by omega)

theorem Cases.rowsFit (cases : List Case) {current level : Nat} {rows : List Row}
    (hle : level ≤ current + 1) (hrows : RowsFit (min current level) rows) :
    RowsFit current (caseRows level cases ++ rows) := by
  match cases with
  | [] => exact hrows.mono (Nat.min_le_left _ _)
  | .on pattern body :: cases =>
    rw [caseRows, List.cons_append, List.append_assoc]
    have hothers : RowsFit level (caseRows level cases ++ rows) :=
      Cases.rowsFit cases (Nat.le_succ level) (hrows.mono (by omega))
    exact ⟨hle, Body.rowsFit body (Nat.le_refl _) (hothers.mono (by omega))⟩

end

end StagedScript.Syntax
