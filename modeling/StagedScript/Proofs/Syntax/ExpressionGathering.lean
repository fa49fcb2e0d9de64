import StagedScript.Proofs.Syntax.Gathering
import StagedScript.Syntax.Parser.Statement

/-!
# Expressions and patterns take no comments

The parsers of expressions and patterns take only tokens whose kinds they have
seen, and a comment is none of these.
-/

namespace StagedScript.Syntax.Parser

open Text

/-- The parsers for nested parts take no comments. -/
structure ExprQuiet (p : ExprParsers) : Prop where
  expr : Quiet p.expr
  signed : Quiet p.signed
  negation : Quiet p.negation

variable {p : ExprParsers}

theorem quiet_adjacentStrings : ∀ n, Quiet (adjacentStrings n) := by
  intro n
  induction n with
  | zero => exact .throw _
  | succ n ih =>
    refine .peek_bind fun k _ => ?_
    cases k with
    | string text => exact .advance_bind rfl fun _ => ih.bind fun _ => .pure rfl
    | _ => exact .pure rfl

theorem quiet_integerLiteral (magnitude : Nat) (span : Span) :
    Quiet (integerLiteral magnitude span) := by
  unfold integerLiteral
  split
  · exact .pure rfl
  · exact .invalid _ _

theorem quiet_parenthesized (hp : ExprQuiet p) (span : Span) : Quiet (parenthesized p span) := by
  refine .acceptSymbol_bind (.pure rfl) (hp.expr.bind fun first => ?_)
  refine .acceptSymbol_bind (.pure rfl) ?_
  refine Quiet.bind (.bounded (quiet_itemsAfter hp.expr .comma _)) fun others => ?_
  exact .expectSymbol_bind (.pure rfl)

theorem quiet_dictEntry (hp : ExprQuiet p) : Quiet (dictEntry p) :=
  hp.expr.bind fun _ => .expect_bind rfl fun _ => hp.expr.bind fun _ => .pure rfl

theorem quiet_atom (hp : ExprQuiet p) : Quiet (atom p) := by
  refine .peekToken_bind fun k span _ => ?_
  cases k with
  | identifier name => exact .advance_bind rfl fun _ => .pure rfl
  | integer magnitude =>
    exact .advance_bind rfl fun _ => (quiet_integerLiteral magnitude span).bind fun _ => .pure rfl
  | float x => exact .advance_bind rfl fun _ => .pure rfl
  | string text =>
    exact .advance_bind rfl fun _ => Quiet.bind (.bounded quiet_adjacentStrings) fun _ => .pure rfl
  | formatted body =>
    have hparts : Quiet (liftM (formattedParts p span body) : Parser _) := .lift fun _ => rfl
    exact .advance_bind rfl fun _ => hparts.bind fun _ => .pure rfl
  | keyword word =>
    cases word with
    | trueKw | falseKw | noneKw => exact .advance_bind rfl fun _ => .pure rfl
    | _ => exact .unexpected _
  | symbol sign =>
    cases sign with
    | leftParen => exact .advance_bind rfl fun _ => quiet_parenthesized hp span
    | leftBracket =>
      exact .advance_bind rfl fun _ => (quiet_itemsUntil hp.expr _).bind fun _ => .pure rfl
    | leftBrace =>
      exact .advance_bind rfl fun _ => (quiet_itemsUntil (quiet_dictEntry hp) _).bind fun _ =>
        .pure rfl
    | _ => exact .unexpected _
  | _ => exact .unexpected _

theorem quiet_extendAll {extend : Expr → Parser (Option Expr)} (hextend : ∀ e, Quiet (extend e)) :
    ∀ n e, Quiet (extendAll extend n e) := by
  intro n
  induction n with
  | zero => exact fun _ => .throw _
  | succ n ih =>
    refine fun e => (hextend e).bind fun longer => ?_
    cases longer with
    | none => exact .pure rfl
    | some longer => exact ih longer

theorem quiet_exprListOf {expr : Parser Expr} (hexpr : Quiet expr) : Quiet (exprListOf expr) := by
  refine hexpr.bind fun first => .isAt_bind ?_ (.pure rfl)
  exact Quiet.bind (.bounded (quiet_itemsAfter hexpr .comma _)) fun _ => .pure rfl

theorem quiet_trailer (hp : ExprQuiet p) (e : Expr) : Quiet (trailer p e) := by
  refine .acceptSymbol_bind ?_ (.acceptSymbol_bind ?_ (.acceptSymbol_bind ?_ (.pure rfl)))
  · exact (quiet_itemsUntil hp.expr _).bind fun _ => .pure rfl
  · exact .identifier_bind fun _ _ => .pure rfl
  · exact (quiet_exprListOf hp.expr).bind fun _ => .expectSymbol_bind (.pure rfl)

/-! ## Levels -/

theorem quiet_postfixExpr (hp : ExprQuiet p) : Quiet (postfixExpr p) :=
  (quiet_atom hp).bind fun start => .bounded fun n => quiet_extendAll (quiet_trailer hp) n start

theorem quiet_power (hp : ExprQuiet p) : Quiet (power p) :=
  (quiet_postfixExpr hp).bind fun _ =>
    .acceptSymbol_bind (hp.signed.bind fun _ => .pure rfl) (.pure rfl)

theorem quiet_signed (hp : ExprQuiet p) : Quiet (signed p) := by
  have hop (op : UnaryOp) {k : Lexeme} (hk : k.comment? = none) :
      Gathers (· = k) (do
        let span := (← advance).span
        if op = .neg ∧ (← peek) = .integer (Nat.pow 2 63) then
          let digits := (← advance).span
          return Expr.constant (.int Int64.minValue) (span.merge digits)
        else
          return .unary op (← p.signed) span) fun _ texts => texts = [] := by
    refine .advance_bind hk fun span => .peek_bind fun k _ => ?_
    split
    · next hleast =>
      obtain ⟨-, rfl⟩ := hleast
      exact .advance_bind rfl fun _ => .pure rfl
    · exact hp.signed.bind fun _ => .pure rfl
  have hpower {k : Lexeme} : Gathers (· = k) (power p) fun _ texts => texts = [] :=
    (quiet_power hp).restrict
  refine .peek_bind fun k _ => ?_
  match k with
  | .symbol sign =>
    cases sign with
    | minus => exact hop .neg rfl
    | plus => exact hop .pos rfl
    | _ => exact hpower
  | .indent | .dedent | .newline | .eof | .keyword _ | .identifier _ | .integer _ | .float _
  | .string _ | .formatted _ | .comment _ => exact hpower

/-- Operators are no comments. -/
theorem quiet_chain {op? : Lexeme → Option BinaryOp} (hop : ∀ text, op? (.comment text) = none)
    {operand : Parser Expr} (hoperand : Quiet operand) : Quiet (chain op? operand) := by
  refine hoperand.bind fun first => .bounded fun n => quiet_extendAll (fun left => ?_) n first
  refine .peek_bind fun k _ => ?_
  cases hk : op? k with
  | none => exact .pure rfl
  | some op =>
    have hnone : k.comment? = none := by
      cases k with
      | comment text => rw [hop text] at hk; nomatch hk
      | _ => rfl
    exact .advance_bind hnone fun _ => hoperand.bind fun _ => .pure rfl

theorem quiet_sum (hp : ExprQuiet p) : Quiet (sum p) :=
  quiet_chain (fun _ => rfl) (quiet_chain (fun _ => rfl) (quiet_signed hp))

theorem quiet_comparisonOp? : Quiet comparisonOp? := by
  have hnone {k : Lexeme} : Gathers (· = k) (pure none : Parser (Option BinaryOp))
      fun _ texts => texts = [] := .pure rfl
  have hsome (op : BinaryOp) {k : Lexeme} (hk : k.comment? = none) :
      Gathers (· = k) (do let _ ← advance; return some op) fun _ texts => texts = [] :=
    .advance_bind hk fun _ => .pure rfl
  refine .peek_bind fun k _ => ?_
  match k with
  | .symbol sign =>
    refine .peekSecond_bind fun k? => ?_
    cases sign with
    | eqEq => exact hsome .eq rfl
    | notEq => exact hsome .ne rfl
    | lt => exact hsome .lt rfl
    | gt => exact hsome .gt rfl
    | ltEq => exact hsome .le rfl
    | gtEq => exact hsome .ge rfl
    | _ => exact hnone
  | .keyword word =>
    cases word with
    | inKw => exact .peekSecond_bind fun _ => hsome .isIn rfl
    | notKw =>
      refine .peekSecond_advance_bind (.keyword .inKw) rfl rfl
        (fun _ => .advance_bind rfl fun _ => .pure rfl) fun k? hk? => ?_
      match k? with
      | some (.keyword second) =>
        cases second with
        | inKw => exact absurd rfl hk?
        | _ => exact hnone
      | none | some .indent | some .dedent | some .newline | some .eof | some (.symbol _)
      | some (.identifier _) | some (.integer _) | some (.float _) | some (.string _)
      | some (.formatted _) | some (.comment _) => exact hnone
    | _ => exact .peekSecond_bind fun _ => hnone
  | .indent | .dedent | .newline | .eof | .identifier _ | .integer _ | .float _ | .string _
  | .formatted _ | .comment _ => exact .peekSecond_bind fun _ => hnone

theorem quiet_comparison (hp : ExprQuiet p) : Quiet (comparison p) := by
  refine (quiet_sum hp).bind fun left => quiet_comparisonOp?.bind fun op => ?_
  cases op with
  | none => exact .pure rfl
  | some op => exact (quiet_sum hp).bind fun _ => .pure rfl

theorem quiet_negation (hp : ExprQuiet p) : Quiet (negation p) :=
  .isAt_bind (.advance_bind rfl fun _ => hp.negation.bind fun _ => .pure rfl) (quiet_comparison hp)

theorem quiet_disjunction (hp : ExprQuiet p) : Quiet (disjunction p) :=
  quiet_chain (fun _ => rfl) (quiet_chain (fun _ => rfl) (quiet_negation hp))

theorem quiet_conditional (hp : ExprQuiet p) : Quiet (conditional p) := by
  refine (quiet_disjunction hp).bind fun _ => .accept_bind rfl ?_ (.pure rfl)
  refine (quiet_disjunction hp).bind fun _ => .expect_bind rfl fun _ => ?_
  exact hp.expr.bind fun _ => .pure rfl

/-- The parsers of expressions take no comments. -/
theorem exprQuiet : ∀ n, ExprQuiet (exprParsers n) := by
  intro n
  induction n with
  | zero => exact ⟨.throw _, .throw _, .throw _⟩
  | succ n ih => exact ⟨quiet_conditional ih, quiet_signed ih, quiet_negation ih⟩

theorem quiet_fieldsAfter : ∀ n e, Quiet (fieldsAfter n e) := by
  intro n
  induction n with
  | zero => exact fun _ => .throw _
  | succ n ih => exact fun e => .acceptSymbol_bind (.identifier_bind fun _ _ => ih _) (.pure rfl)

theorem quiet_negativePattern (span : Span) : Quiet (negativePattern span) := by
  refine .of_heads fun k _ => ?_
  cases k with
  | integer magnitude =>
    refine .advance_bind rfl fun _ => ?_
    dsimp only
    split
    · exact .pure rfl
    · exact .invalid _ _
  | float x => exact .advance_bind rfl fun _ => .pure rfl
  | comment text => exact .advance_comment_bind fun _ => .invalid _ _
  | _ => exact .advance_bind rfl fun _ => .invalid _ _

theorem quiet_bracketPattern {inner : Parser Pattern} (hinner : Quiet inner) (stop : Symbol) :
    Quiet (bracketPattern inner stop) := by
  refine Quiet.bind (.bounded (quiet_itemsBefore hinner stop)) fun read => ?_
  refine .expect_bind rfl fun _ => ?_
  split
  · split <;> exact .pure rfl
  · exact .pure rfl

theorem quiet_closedPattern (hp : ExprQuiet p) {inner : Parser Pattern} (hinner : Quiet inner) :
    Quiet (closedPattern p inner) := by
  have hliteral : Quiet (do return Pattern.value (← atom p)) :=
    (quiet_atom hp).bind fun _ => .pure rfl
  refine .peekToken_bind fun k span _ => ?_
  cases k with
  | identifier name =>
    refine .peekSecond_bind fun second => .advance_bind rfl fun _ => ?_
    split
    · exact .pure rfl
    · split
      · exact Quiet.bind (.bounded fun n => quiet_fieldsAfter n _) fun _ => .pure rfl
      · exact .pure rfl
  | integer _ | float _ | string _ => exact hliteral.restrict
  | keyword word =>
    cases word with
    | trueKw | falseKw | noneKw => exact hliteral.restrict
    | _ => exact .unexpected _
  | symbol sign =>
    cases sign with
    | leftParen => exact .advance_bind rfl fun _ => quiet_bracketPattern hinner _
    | leftBracket => exact .advance_bind rfl fun _ => quiet_bracketPattern hinner _
    | minus => exact .advance_bind rfl fun _ => quiet_negativePattern span
    | _ => exact .unexpected _
  | _ => exact .unexpected _

theorem quiet_orPattern (hp : ExprQuiet p) {inner : Parser Pattern} (hinner : Quiet inner) :
    Quiet (orPattern p inner) := by
  have hclosed : Quiet (closedPattern p inner) := quiet_closedPattern hp hinner
  refine hclosed.bind fun first => .isAt_bind ?_ (.pure rfl)
  exact Quiet.bind (.bounded (quiet_itemsAfter hclosed .pipe _)) fun _ => .pure rfl

theorem quiet_patternWithin (hp : ExprQuiet p) : ∀ n, Quiet (patternWithin p n) := by
  intro n
  induction n with
  | zero => exact .throw _
  | succ n ih => exact quiet_orPattern hp ih

theorem quiet_casePattern (hp : ExprQuiet p) : Quiet (casePattern p) := by
  have hpattern : Quiet (bounded (patternWithin p)) := .bounded (quiet_patternWithin hp)
  refine hpattern.bind fun first => .isAt_bind ?_ (.pure rfl)
  exact Quiet.bind (.bounded (quiet_itemsAfter hpattern .comma _)) fun _ => .pure rfl

end StagedScript.Syntax.Parser
