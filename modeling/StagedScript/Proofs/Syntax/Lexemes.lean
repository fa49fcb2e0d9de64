import StagedScript.Proofs.Decimal.Double
import StagedScript.Proofs.Syntax.Scanning
import StagedScript.Syntax.Parser.Expression
import StagedScript.Syntax.Printer

/-!
# The lexemes of printed trees

The lexemes that the text of an expression or of a pattern consists of.  Their
first one tells that an expression starts, and no sign or `not` comes first
where the operand of a stronger operator is expected.
-/

namespace StagedScript.Syntax

open Text

/-! ## Expressions -/

def separated (kss : List (List Lexeme)) : List Lexeme :=
  [Lexeme.symbol .comma].intercalate kss

def bracketed (opening closing : Symbol) (ks : List Lexeme) : List Lexeme :=
  .symbol opening :: (ks ++ [.symbol closing])

def tupleLexemes : List (List Lexeme) → List Lexeme
  | [item] => bracketed .leftParen .rightParen (item ++ [.symbol .comma])
  | items => bracketed .leftParen .rightParen (separated items)

/-- The lexemes of an operator. -/
def BinaryOp.lexemes : BinaryOp → List Lexeme
  | .add => [.symbol .plus]
  | .sub => [.symbol .minus]
  | .mul => [.symbol .star]
  | .div => [.symbol .slash]
  | .floorDiv => [.symbol .slashSlash]
  | .mod => [.symbol .percent]
  | .pow => [.symbol .starStar]
  | .eq => [.symbol .eqEq]
  | .ne => [.symbol .notEq]
  | .lt => [.symbol .lt]
  | .gt => [.symbol .gt]
  | .le => [.symbol .ltEq]
  | .ge => [.symbol .gtEq]
  | .isIn => [.keyword .inKw]
  | .notIn => [.keyword .notKw, .keyword .inKw]
  | .and => [.keyword .andKw]
  | .or => [.keyword .orKw]

def signLexemes (negative : Bool) : List Lexeme :=
  if negative then [.symbol .minus] else []

/-- The lexemes of a call of `float`. -/
def specialLexemes (name : String) : List Lexeme :=
  .identifier "float" :: bracketed .leftParen .rightParen [.string name]

/-- The lexemes of a literal. -/
def Constant.lexemes : Constant → List Lexeme
  | .none => [.keyword .noneKw]
  | .bool true => [.keyword .trueKw]
  | .bool false => [.keyword .falseKw]
  | .int n => signLexemes (n.toInt < 0) ++ [.integer n.toInt.natAbs]
  | .float x =>
    match Decimal.decode x with
    | .notANumber => specialLexemes "nan"
    | .infinite negative => signLexemes negative ++ specialLexemes "inf"
    | .finite b => signLexemes b.negative ++ [.float (Decimal.reread b)]
  | .string s => [.string s]

def formattedText (parts : List FormattedPart) : List Char :=
  'f' :: '"' :: ((renderParts '"' parts).toList ++ ['"'])

/-- The body of a formatted string as it is read. -/
def formattedBody (parts : List FormattedPart) : String :=
  match (scanLexeme (formattedText parts)).result with
  | .ok (.formatted body) => body
  | _ => ""

mutual

/-- The lexemes of an expression, in parentheses if it binds less strongly than `least`. -/
def Expr.lexemes (least : Nat) (e : Expr) : List Lexeme :=
  let inner :=
    match e with
    | .name id _ => [.identifier id]
    | .constant value _ => value.lexemes
    | .formatted parts _ => [.formatted (formattedBody parts)]
    | .tuple items _ => tupleLexemes (itemLexemes items)
    | .list items _ => bracketed .leftBracket .rightBracket (separated (itemLexemes items))
    | .dict entries _ => bracketed .leftBrace .rightBrace (separated (entryLexemes entries))
    | .member target field _ =>
      target.lexemes Strength.atom ++ [.symbol .dot, .identifier field]
    | .subscript target index _ =>
      let inside :=
        match index with
        | .tuple (first :: second :: others) _ =>
          separated (itemLexemes (first :: second :: others))
        | index => index.lexemes 0
      target.lexemes Strength.atom ++ bracketed .leftBracket .rightBracket inside
    | .call callee args _ =>
      callee.lexemes Strength.atom
        ++ bracketed .leftParen .rightParen (separated (itemLexemes args))
    | .binary op left right _ =>
      left.lexemes op.operandStrengths.1 ++ op.lexemes ++ right.lexemes op.operandStrengths.2
    | .unary .not operand _ => .keyword .notKw :: operand.lexemes Strength.negation
    | .unary .neg operand _ => .symbol .minus :: operand.lexemes Strength.sign
    | .unary .pos operand _ => .symbol .plus :: operand.lexemes Strength.sign
    | .conditional condition thenValue elseValue _ =>
      thenValue.lexemes Strength.disjunction
        ++ .keyword .ifKw :: condition.lexemes Strength.disjunction
        ++ .keyword .elseKw :: elseValue.lexemes Strength.conditional
  if e.strength < least then bracketed .leftParen .rightParen inner else inner

def itemLexemes : List Expr → List (List Lexeme)
  | [] => []
  | item :: items => item.lexemes 0 :: itemLexemes items

def entryLexemes : List Entry → List (List Lexeme)
  | [] => []
  | .pair key value :: entries =>
    (key.lexemes 0 ++ .symbol .colon :: value.lexemes 0) :: entryLexemes entries

end

/-! ## The first lexeme -/

/-- The lexeme can be the first one of an expression that binds at least so strongly. -/
structure Opens (least : Nat) (k : Lexeme) : Prop where
  starts : Parser.startsExpr k = true
  positive : Strength.comparison ≤ least → k ≠ .keyword .notKw
  unsigned : Strength.power ≤ least → k ≠ .symbol .minus ∧ k ≠ .symbol .plus
  small : k ≠ .integer (Nat.pow 2 63)

/-- The first of the lexemes opens an expression. -/
def OpensWith (least : Nat) (ks : List Lexeme) : Prop :=
  ∃ k rest, ks = k :: rest ∧ Opens least k

theorem Opens.of_atomic {k : Lexeme} (hstarts : Parser.startsExpr k = true)
    (hnot : k ≠ .keyword .notKw) (hminus : k ≠ .symbol .minus) (hplus : k ≠ .symbol .plus)
    (hsmall : k ≠ .integer (Nat.pow 2 63)) (least : Nat) : Opens least k :=
  ⟨hstarts, fun _ => hnot, fun _ => ⟨hminus, hplus⟩, hsmall⟩

theorem opensWith_paren (least : Nat) (ks : List Lexeme) :
    OpensWith least (bracketed .leftParen .rightParen ks) :=
  ⟨_, _, rfl, .of_atomic (by decide) (by decide) (by decide) (by decide) (by decide) least⟩

theorem Opens.mono {least least' : Nat} {k : Lexeme} (hle : least ≤ least') (h : Opens least' k) :
    Opens least k :=
  ⟨h.starts, fun hl => h.positive (Nat.le_trans hl hle),
    fun hl => h.unsigned (Nat.le_trans hl hle), h.small⟩

theorem OpensWith.starts {least : Nat} {ks : List Lexeme} (h : OpensWith least ks) :
    ∃ k ∈ ks.head?, Parser.startsExpr k = true := by
  obtain ⟨k, rest, rfl, hk⟩ := h
  exact ⟨k, rfl, hk.starts⟩

theorem OpensWith.append {least least' : Nat} {ks : List Lexeme} (hle : least ≤ least')
    (h : OpensWith least' ks) (ks' : List Lexeme) : OpensWith least (ks ++ ks') := by
  obtain ⟨k, rest, rfl, hk⟩ := h
  exact ⟨k, rest ++ ks', rfl, hk.mono hle⟩

theorem BinaryOp.strength_le (op : BinaryOp) : op.strength ≤ op.operandStrengths.1 := by
  cases op <;> decide

theorem opensWith_signLexemes {negative : Bool} {least : Nat} {ks : List Lexeme}
    (hneg : negative = true → least ≤ Strength.sign) (hks : OpensWith least ks) :
    OpensWith least (signLexemes negative ++ ks) := by
  cases negative with
  | false => exact hks
  | true =>
    have hle := hneg rfl
    exact ⟨_, _, rfl, by decide, fun _ => by decide,
      fun hl => absurd (Nat.le_trans hl hle) (by decide), by decide⟩

theorem Int64.natAbs_lt_of_nonneg {n : Int64} (h : ¬ n.toInt < 0) :
    n.toInt.natAbs < Nat.pow 2 63 := by
  have hlt := n.toInt_lt
  simp only [Nat.pow_eq]
  omega

theorem Int64.toInt_neg_iff (n : Int64) : n.toInt < 0 ↔ n < 0 := by
  rw [Int64.lt_iff_toInt_lt]
  rfl

theorem opensWith_specialLexemes (name : String) (least : Nat) :
    OpensWith least (specialLexemes name) :=
  ⟨_, _, rfl, .of_atomic (by rfl) (by simp) (by simp) (by simp) (by simp) least⟩

theorem opensWith_constant {c : Constant} {least : Nat} {span : Span}
    (h : least ≤ (Expr.constant c span).strength) : OpensWith least c.lexemes := by
  match c with
  | .none | .bool true | .bool false =>
    exact ⟨_, _, rfl, .of_atomic (by decide) (by decide) (by decide) (by decide) (by decide) least⟩
  | .string s =>
    exact ⟨_, _, rfl, .of_atomic (by rfl) (by simp) (by simp) (by simp) (by simp) least⟩
  | .int n =>
    by_cases hneg : n.toInt < 0
    · have hle : least ≤ Strength.sign := by
        simpa [Expr.strength, (Int64.toInt_neg_iff n).mp hneg] using h
      have hnot : ¬ Strength.power ≤ least := fun hl => absurd (Nat.le_trans hl hle) (by decide)
      refine ⟨.symbol .minus, [.integer n.toInt.natAbs],
        by simp [Constant.lexemes, signLexemes, hneg], ?_⟩
      exact ⟨by decide, fun _ => by decide, fun hl => absurd hl hnot, by decide⟩
    · have hlt := Int64.natAbs_lt_of_nonneg hneg
      refine ⟨.integer n.toInt.natAbs, [], by simp [Constant.lexemes, signLexemes, hneg], ?_⟩
      exact .of_atomic rfl (by simp) (by simp) (by simp)
        (by simp only [ne_eq, Lexeme.integer.injEq]; omega) least
  | .float x =>
    cases hd : Decimal.decode x with
    | notANumber =>
      simp only [Constant.lexemes, hd]
      exact opensWith_specialLexemes "nan" least
    | infinite negative =>
      simp only [Constant.lexemes, hd]
      apply opensWith_signLexemes
      · rintro rfl
        simpa [Expr.strength, Decimal.isNegative, hd] using h
      · exact opensWith_specialLexemes "inf" least
    | finite b =>
      simp only [Constant.lexemes, hd]
      apply opensWith_signLexemes
      · intro hneg
        simpa [Expr.strength, Decimal.isNegative, hd, hneg] using h
      · exact ⟨_, _, rfl, .of_atomic rfl (by simp) (by simp) (by simp) (by simp) least⟩

/-- The lexemes of an expression start with one that opens an expression. -/
theorem opensWith_lexemes (least : Nat) (e : Expr) : OpensWith least (e.lexemes least) := by
  rw [Expr.lexemes.eq_def]
  dsimp only
  by_cases hless : e.strength < least
  · rw [if_pos hless]
    exact opensWith_paren least _
  rw [if_neg hless]
  have hle := Nat.le_of_not_lt hless
  match e with
  | .name id _ =>
    exact ⟨_, _, rfl, .of_atomic rfl (by simp) (by simp) (by simp) (by simp) least⟩
  | .constant value _ => exact opensWith_constant hle
  | .formatted parts _ =>
    exact ⟨_, _, rfl, .of_atomic rfl (by simp) (by simp) (by simp) (by simp) least⟩
  | .tuple items _ =>
    show OpensWith least (tupleLexemes (itemLexemes items))
    unfold tupleLexemes
    split <;> exact opensWith_paren least _
  | .list items _ =>
    exact ⟨_, _, rfl, .of_atomic (by decide) (by decide) (by decide) (by decide) (by decide) least⟩
  | .dict entries _ =>
    exact ⟨_, _, rfl, .of_atomic (by decide) (by decide) (by decide) (by decide) (by decide) least⟩
  | .member target field _ => exact (opensWith_lexemes Strength.atom target).append hle _
  | .subscript target index _ => exact (opensWith_lexemes Strength.atom target).append hle _
  | .call callee args _ => exact (opensWith_lexemes Strength.atom callee).append hle _
  | .binary op left right _ =>
    have hop : least ≤ op.operandStrengths.1 := Nat.le_trans hle op.strength_le
    exact ((opensWith_lexemes op.operandStrengths.1 left).append hop _).append (Nat.le_refl _) _
  | .unary .not operand _ =>
    have hnegation : least ≤ Strength.negation := hle
    have hsum : ¬ Strength.comparison ≤ least :=
      fun hl => absurd (Nat.le_trans hl hnegation) (by decide)
    have hpow : ¬ Strength.power ≤ least :=
      fun hl => absurd (Nat.le_trans hl hnegation) (by decide)
    exact ⟨_, _, rfl, by decide, fun hl => absurd hl hsum, fun hl => absurd hl hpow, by decide⟩
  | .unary .neg operand _ | .unary .pos operand _ =>
    have hsign : least ≤ Strength.sign := hle
    have hpow : ¬ Strength.power ≤ least := fun hl => absurd (Nat.le_trans hl hsign) (by decide)
    exact ⟨_, _, rfl, by decide, fun _ => by decide, fun hl => absurd hl hpow, by decide⟩
  | .conditional condition thenValue elseValue _ =>
    have hconditional : least ≤ Strength.conditional := hle
    have hthen : least ≤ Strength.disjunction := Nat.le_trans hconditional (by decide)
    have happ := (opensWith_lexemes Strength.disjunction thenValue).append hthen
    simpa using happ _

theorem Expr.lexemes_ne_nil (least : Nat) (e : Expr) : e.lexemes least ≠ [] := by
  obtain ⟨k, ks, hks, -⟩ := opensWith_lexemes least e
  rw [hks]
  exact List.cons_ne_nil k ks

/-- The lexeme is a literal without a sign. -/
def Lexeme.isLiteral : Lexeme → Bool
  | .integer _ | .float _ | .string _ => true
  | .keyword word => word ∈ [Keyword.trueKw, .falseKw, .noneKw]
  | _ => false

end StagedScript.Syntax
