import StagedScript.Proofs.Syntax.Agreement

/-!
# Two runs of the expression parsers

Twins of tokens are read as the same expression up to places, with any two
bounds on the depth of nesting that are not below the number of tokens.
-/

namespace StagedScript.Syntax

open Text

variable {v : Vocabulary} {m : Nat}

/-- What is read of tokens of the vocabulary. -/
abbrev Expr.Formed (v : Vocabulary) : Expr → Prop :=
  v.requirements.expr

/-- The same expression up to places, of the vocabulary. -/
structure ExprTwin (v : Vocabulary) (e e' : Expr) : Prop where
  same : e'.bare = e.bare
  formed : e.Formed v

/-- The same entry of a dictionary. -/
inductive EntryTwin (v : Vocabulary) : Entry → Entry → Prop
  | pair {key value key' value' : Expr} (keys : ExprTwin v key key') (values : ExprTwin v value value') :
    EntryTwin v (.pair key value) (.pair key' value')

theorem stripItems_of_twins {items items' : List Expr} (h : List.Forall₂ (ExprTwin v) items items') :
    stripItems .literal items' = stripItems .literal items ∧
      ItemsHold v.Literal (fun _ => False) items := by
  induction h with
  | nil => exact ⟨rfl, trivial⟩
  | cons hfirst _ ih =>
    exact ⟨congrArg₂ List.cons hfirst.same ih.1, hfirst.formed, ih.2⟩

theorem stripEntries_of_twins {entries entries' : List Entry}
    (h : List.Forall₂ (EntryTwin v) entries entries') :
    stripEntries .literal entries' = stripEntries .literal entries ∧
      EntriesHold v.Literal (fun _ => False) entries := by
  induction h with
  | nil => exact ⟨rfl, trivial⟩
  | cons hfirst _ ih =>
    obtain ⟨hkey, hvalue⟩ := hfirst
    refine ⟨?_, ⟨hkey.formed, hvalue.formed⟩, ih.2⟩
    rw [stripEntries, stripEntries, ih.1]
    exact congrArg₂ (fun key value => Entry.pair key value :: _) hkey.same hvalue.same

namespace ExprTwin

variable {e e' left left' right right' : Expr} {items items' : List Expr}

theorem constant (c : Constant) (hc : v.Literal c) (span span' : Span) :
    ExprTwin v (.constant c span) (.constant c span') :=
  ⟨rfl, hc⟩

theorem tuple (h : List.Forall₂ (ExprTwin v) items items') (span span' : Span) :
    ExprTwin v (.tuple items span) (.tuple items' span') :=
  ⟨congrArg (Expr.tuple · .synthetic) (stripItems_of_twins h).1, (stripItems_of_twins h).2⟩

theorem binary (op : BinaryOp) (hleft : ExprTwin v left left') (hright : ExprTwin v right right') :
    ExprTwin v (Parser.binary op left right) (Parser.binary op left' right') :=
  ⟨congrArg₂ (Expr.binary op · · .synthetic) hleft.same hright.same, hleft.formed, hright.formed⟩

theorem unary (op : UnaryOp) (h : ExprTwin v e e') (span span' : Span) :
    ExprTwin v (.unary op e span) (.unary op e' span') :=
  ⟨congrArg (Expr.unary op · .synthetic) h.same, h.formed⟩

theorem member (h : ExprTwin v e e') {field : String} (hfield : isName field = true)
    (span span' : Span) : ExprTwin v (.member e field span) (.member e' field span') :=
  ⟨congrArg (Expr.member · field .synthetic) h.same, h.formed, hfield⟩

theorem call (h : ExprTwin v e e') (hargs : List.Forall₂ (ExprTwin v) items items')
    (span span' : Span) : ExprTwin v (.call e items span) (.call e' items' span') :=
  ⟨congrArg₂ (Expr.call · · .synthetic) h.same (stripItems_of_twins hargs).1, h.formed,
    (stripItems_of_twins hargs).2⟩

theorem subscript (h : ExprTwin v e e') (hindex : ExprTwin v left left') (span span' : Span) :
    ExprTwin v (.subscript e left span) (.subscript e' left' span') :=
  ⟨congrArg₂ (Expr.subscript · · .synthetic) h.same hindex.same, h.formed, hindex.formed⟩

theorem conditional (hcondition : ExprTwin v e e') (hvalue : ExprTwin v left left')
    (hother : ExprTwin v right right') (span span' : Span) :
    ExprTwin v (.conditional e left right span) (.conditional e' left' right' span') := by
  have hsame : Expr.conditional e'.bare left'.bare right'.bare .synthetic =
      Expr.conditional e.bare left.bare right.bare .synthetic := by
    rw [hcondition.same, hvalue.same, hother.same]
  exact ⟨hsame, hcondition.formed, hvalue.formed, hother.formed⟩

end ExprTwin

def LiteralTwin (v : Vocabulary) (e e' : Expr) : Prop :=
  ∃ c span span', e = .constant c span ∧ e' = .constant c span' ∧ v.Literal c

theorem LiteralTwin.expr {e e' : Expr} (h : LiteralTwin v e e') : ExprTwin v e e' := by
  obtain ⟨c, span, span', rfl, rfl, hc⟩ := h
  exact .constant c hc span span'

namespace Parser

variable {heads : Lexeme → Prop}

/-- The parsers for nested parts agree on at most `m` tokens. -/
structure ExprAgree (v : Vocabulary) (m : Nat) (p p' : ExprParsers) : Prop where
  expr : Agree v anyHead m (ExprTwin v) (fun _ => 1) p.expr p'.expr
  signed : Agree v anyHead m (ExprTwin v) (fun _ => 1) p.signed p'.signed
  negation : Agree v anyHead m (ExprTwin v) (fun _ => 1) p.negation p'.negation

variable {p p' : ExprParsers}

theorem ExprAgree.restrict {m' : Nat} (hp : ExprAgree v m p p') (hm : m' ≤ m) :
    ExprAgree v m' p p' :=
  ⟨hp.expr.restrict hm, hp.signed.restrict hm, hp.negation.restrict hm⟩

/-! ## Atoms -/

theorem agree_adjacentStrings : ∀ n m', m' ≤ n →
    Agree v heads m' Eq (fun _ => 0) (adjacentStrings n) (adjacentStrings n) := by
  intro n
  induction n generalizing heads with
  | zero => exact fun m' hn => .zero hn
  | succ n ih =>
    intro m' hn
    refine .peek_bind fun k _ => ?_
    cases k with
    | string text =>
      refine .advance_bind Lexeme.noConfusion fun _ _ _ => ?_
      refine (ih (m' - 1) (by omega)).bind fun more more' hmore => ?_
      exact .pure (congrArg (text ++ ·) hmore) rfl
    | _ => exact .pure rfl rfl

theorem agree_integerLiteral (magnitude : Nat) (span span' : Span) :
    Agree v heads m (fun c c' => c = c' ∧ v.Literal c') (fun _ => 0)
      (integerLiteral magnitude span) (integerLiteral magnitude span') := by
  unfold integerLiteral
  split
  · next hlt =>
    refine .pure ⟨rfl, fun hneg => ?_⟩ rfl
    have hvalue := (Int64.toInt_neg_iff _).mpr hneg
    rw [Int64.toInt_ofNat_of_lt (by simpa using hlt)] at hvalue
    omega
  · exact .invalid _ _ _

theorem agree_parenthesized (hp : ExprAgree v m p p') (span span' : Span) :
    Agree v anyHead m (ExprTwin v) (fun _ => 0) (parenthesized p span) (parenthesized p' span') := by
  refine .acceptSymbol_bind (.pure (.tuple .nil span span') rfl) ?_
  refine (hp.expr.restrict (Nat.le_refl _)).bind fun first first' hfirst => ?_
  refine .acceptSymbol_bind (.pure hfirst rfl) ?_
  refine (Agree.bounded fun n m' hn hm =>
    agree_itemsAfter hp.expr .comma _ n m' hn (by omega)).bind fun others others' hothers => ?_
  exact .expectSymbol_bind (.pure (.tuple (.cons hfirst hothers) span span') rfl)

theorem agree_dictEntry (hp : ExprAgree v m p p') :
    Agree v anyHead m (EntryTwin v) (fun _ => 1) (dictEntry p) (dictEntry p') := by
  refine hp.expr.bind fun key key' hkey => ?_
  refine .expect_bind Lexeme.noConfusion fun _ _ _ => ?_
  refine (hp.expr.restrict (by omega)).bind fun value value' hvalue => ?_
  exact .pure (.pair hkey hvalue) rfl

theorem agree_literal {k : Lexeme} (hk : k.isLiteral = true) :
    Agree v (· = k) m (LiteralTwin v) (fun _ => 1) (atom p) (atom p') := by
  refine .peekToken_bind fun k' span span' hk' => ?_
  subst hk'
  match k', hk with
  | .integer magnitude, _ =>
    refine .advance_bind Lexeme.noConfusion fun _ _ _ => ?_
    refine (agree_integerLiteral magnitude span span').bind fun c c' hc => ?_
    obtain ⟨rfl, hc⟩ := hc
    exact .pure ⟨c, span, span', rfl, rfl, hc⟩ rfl
  | .float x, _ =>
    refine .advance_bind Lexeme.noConfusion fun _ _ hx => ?_
    exact .pure ⟨.float x, span, span', rfl, rfl, hx⟩ rfl
  | .string text, _ =>
    refine .advance_bind Lexeme.noConfusion fun _ _ _ => ?_
    refine (Agree.bounded fun n m' hn _ => agree_adjacentStrings n m' hn).bind
      fun more more' hmore => ?_
    subst hmore
    exact .pure ⟨.string (text ++ more), span, span', rfl, rfl, trivial⟩ rfl
  | .keyword word, hk =>
    cases word with
    | trueKw =>
      refine .advance_bind Lexeme.noConfusion fun _ _ _ => ?_
      exact .pure ⟨.bool true, span, span', rfl, rfl, trivial⟩ rfl
    | falseKw =>
      refine .advance_bind Lexeme.noConfusion fun _ _ _ => ?_
      exact .pure ⟨.bool false, span, span', rfl, rfl, trivial⟩ rfl
    | noneKw =>
      refine .advance_bind Lexeme.noConfusion fun _ _ _ => ?_
      exact .pure ⟨.none, span, span', rfl, rfl, trivial⟩ rfl
    | _ => exact absurd hk (by decide)

theorem agree_atom (hp : ExprAgree v m p p') :
    Agree v heads (m + 1) (ExprTwin v) (fun _ => 1) (atom p) (atom p') := by
  refine .of_heads fun k _ => ?_
  by_cases hk : k.isLiteral = true
  · exact (agree_literal hk).mono (fun _ hk => hk) (Nat.le_refl _) (fun _ _ h => h.expr)
      fun _ => Nat.le_refl _
  refine .peekToken_bind fun k' span span' hk' => ?_
  subst hk'
  cases k' with
  | identifier name =>
    refine .advance_bind Lexeme.noConfusion fun _ _ hname => ?_
    exact .pure ⟨rfl, hname⟩ rfl
  | integer _ | float _ | string _ => exact absurd rfl hk
  | keyword word =>
    cases word with
    | trueKw | falseKw | noneKw => exact absurd rfl hk
    | _ => exact .unexpected _
  | formatted body =>
    exact .advance_bind Lexeme.noConfusion fun _ _ hadmits => hadmits.elim
  | symbol sign =>
    cases sign with
    | leftParen =>
      refine .advance_bind Lexeme.noConfusion fun _ _ _ => ?_
      exact agree_parenthesized hp span span'
    | leftBracket =>
      refine .advance_bind Lexeme.noConfusion fun _ _ _ => ?_
      refine (agree_itemsUntil hp.expr .rightBracket).bind fun items items' hitems => ?_
      have hsame := stripItems_of_twins hitems
      exact .pure ⟨congrArg (Expr.list · .synthetic) hsame.1, hsame.2⟩ rfl
    | leftBrace =>
      refine .advance_bind Lexeme.noConfusion fun _ _ _ => ?_
      refine (agree_itemsUntil (agree_dictEntry hp) .rightBrace).bind
        fun entries entries' hentries => ?_
      have hsame := stripEntries_of_twins hentries
      exact .pure ⟨congrArg (Expr.dict · .synthetic) hsame.1, hsame.2⟩ rfl
    | _ => exact .unexpected _
  | _ => exact .unexpected _

/-- What is found to extend an expression takes a token. -/
def takenBy (longer : Option Expr) : Nat :=
  if longer.isSome then 1 else 0

theorem agree_extendAll {extend extend' : Expr → Parser (Option Expr)}
    (hextend : ∀ e e', ExprTwin v e e' →
      Agree v anyHead m (Option.Rel (ExprTwin v)) takenBy (extend e) (extend' e')) :
    ∀ n m', m' ≤ n → m' ≤ m → ∀ e e', ExprTwin v e e' →
      Agree v heads m' (ExprTwin v) (fun _ => 0) (extendAll extend n e) (extendAll extend' n e') := by
  intro n
  induction n generalizing heads with
  | zero => exact fun m' hn _ _ _ _ => .zero hn
  | succ n ih =>
    intro m' hn hm e e' he
    refine ((hextend e e' he).restrict hm).bind fun longer longer' hlonger => ?_
    cases hlonger with
    | none => exact .pure he rfl
    | some hlonger => exact ih (m' - 1) (by omega) (by omega) _ _ hlonger

theorem agree_exprListOf {expr expr' : Parser Expr}
    (hexpr : Agree v anyHead m (ExprTwin v) (fun _ => 1) expr expr') :
    Agree v heads m (ExprTwin v) (fun _ => 1) (exprListOf expr) (exprListOf expr') := by
  refine (hexpr.restrict (Nat.le_refl m)).bind fun first first' hfirst => ?_
  refine .isAt_bind ?_ (.pure hfirst rfl)
  refine (Agree.bounded fun n m' hn hm =>
    agree_itemsAfter hexpr .comma startsExpr n m' hn (by omega)).bind fun others others' hothers => ?_
  exact .pure (.tuple (.cons hfirst hothers) _ _) rfl

theorem agree_trailer (hp : ExprAgree v m p p') {e e' : Expr} (he : ExprTwin v e e') :
    Agree v anyHead (m + 1) (Option.Rel (ExprTwin v)) takenBy (trailer p e) (trailer p' e') := by
  refine .acceptSymbol_bind ?_ (.acceptSymbol_bind ?_ (.acceptSymbol_bind ?_ (.pure .none rfl)))
  · refine (agree_itemsUntil hp.expr .rightParen).bind fun args args' hargs => ?_
    exact .pure (.some (he.call hargs _ _)) rfl
  · refine .identifier_bind fun field span span' hfield => ?_
    exact .pure (.some (he.member hfield _ _)) rfl
  · refine (agree_exprListOf hp.expr).bind fun index index' hindex => ?_
    exact .expectSymbol_bind (.pure (.some (he.subscript hindex _ _)) rfl)

/-! ## Levels -/

theorem agree_postfixExpr (hp : ExprAgree v m p p') :
    Agree v heads (m + 1) (ExprTwin v) (fun _ => 1) (postfixExpr p) (postfixExpr p') := by
  refine (agree_atom hp).bind fun start start' hstart => ?_
  exact .bounded fun n m' hn hm =>
    agree_extendAll (fun e e' he => agree_trailer hp he) n m' hn (by omega) start start' hstart

theorem agree_power (hp : ExprAgree v m p p') :
    Agree v heads (m + 1) (ExprTwin v) (fun _ => 1) (power p) (power p') := by
  refine (agree_postfixExpr hp).bind fun base base' hbase => ?_
  refine .acceptSymbol_bind ?_ (.pure hbase rfl)
  refine (hp.signed.restrict (by omega)).bind fun exponent exponent' hexponent => ?_
  exact .pure (hbase.binary .pow hexponent) rfl

theorem agree_signed (hp : ExprAgree v m p p') :
    Agree v heads (m + 1) (ExprTwin v) (fun _ => 1) (signed p) (signed p') := by
  have hop (op : UnaryOp) {k : Lexeme} (hk : k ≠ .eof) :
      let parser (p : ExprParsers) : Parser Expr := do
        let span := (← advance).span
        if op = .neg ∧ (← peek) = .integer (Nat.pow 2 63) then
          let digits := (← advance).span
          return .constant (.int Int64.minValue) (span.merge digits)
        else
          return .unary op (← p.signed) span
      Agree v (· = k) (m + 1) (ExprTwin v) (fun _ => 1) (parser p) (parser p') := by
    refine .advance_bind hk fun span span' _ => .peek_bind fun k _ => ?_
    by_cases hleast : op = .neg ∧ k = .integer (Nat.pow 2 63)
    · rw [if_pos hleast, if_pos hleast]
      obtain ⟨-, rfl⟩ := hleast
      refine .advance_bind Lexeme.noConfusion fun digits digits' _ => ?_
      exact .pure (.constant (.int Int64.minValue) (fun _ => rfl) _ _) rfl
    · rw [if_neg hleast, if_neg hleast]
      refine (hp.signed.restrict (Nat.le_refl m)).bind fun operand operand' hoperand => ?_
      exact .pure (hoperand.unary op span span') rfl
  have hpower {k : Lexeme} : Agree v (· = k) (m + 1) (ExprTwin v) (fun _ => 1) (power p) (power p') :=
    agree_power hp
  refine .peek_bind fun k _ => ?_
  match k with
  | .symbol sign =>
    cases sign with
    | minus => exact hop .neg Lexeme.noConfusion
    | plus => exact hop .pos Lexeme.noConfusion
    | _ => exact hpower
  | .indent | .dedent | .newline | .eof | .keyword _ | .identifier _ | .integer _ | .float _
  | .string _ | .formatted _ | .comment _ => exact hpower

theorem agree_chain {op? : Lexeme → Option BinaryOp} (hop : op? .eof = none)
    {operand operand' : Parser Expr}
    (hoperand : Agree v anyHead m (ExprTwin v) (fun _ => 1) operand operand') :
    Agree v heads m (ExprTwin v) (fun _ => 1) (chain op? operand) (chain op? operand') := by
  refine (hoperand.restrict (Nat.le_refl m)).bind fun first first' hfirst => ?_
  refine .bounded fun n m' hn hm => agree_extendAll (m := m) (fun left left' hleft => ?_) n m' hn
    (by omega) first first' hfirst
  refine .peek_bind fun k _ => ?_
  cases hk : op? k with
  | none => exact .pure .none rfl
  | some op =>
    refine .advance_bind (fun heq => ?_) fun _ _ _ => ?_
    · rw [heq, hop] at hk
      nomatch hk
    · refine (hoperand.restrict (by omega)).bind fun right right' hright => ?_
      exact .pure (.some (hleft.binary op hright)) rfl

theorem agree_sum (hp : ExprAgree v m p p') :
    Agree v heads (m + 1) (ExprTwin v) (fun _ => 1) (sum p) (sum p') :=
  agree_chain rfl (agree_chain rfl (agree_signed hp))

theorem agree_comparisonOp? :
    Agree v heads m Eq (fun op => if op.isSome then 1 else 0) comparisonOp? comparisonOp? := by
  refine .peek_bind fun k _ => .peekSecond_bind fun k? => ?_
  have hnone {k : Lexeme} : Agree v (· = k) m Eq (fun op => if op.isSome then 1 else 0)
      (pure none : Parser (Option BinaryOp)) (pure none) := .pure rfl rfl
  have hsome (op : BinaryOp) {k : Lexeme} (hk : k ≠ .eof) :
      Agree v (· = k) m Eq (fun op => if op.isSome then 1 else 0)
        (do let _ ← advance; return some op) (do let _ ← advance; return some op) :=
    .advance_bind hk fun _ _ _ => .pure rfl rfl
  match k with
  | .symbol sign =>
    cases sign with
    | eqEq => exact hsome .eq Lexeme.noConfusion
    | notEq => exact hsome .ne Lexeme.noConfusion
    | lt => exact hsome .lt Lexeme.noConfusion
    | gt => exact hsome .gt Lexeme.noConfusion
    | ltEq => exact hsome .le Lexeme.noConfusion
    | gtEq => exact hsome .ge Lexeme.noConfusion
    | _ => exact hnone
  | .keyword word =>
    cases word with
    | inKw => exact hsome .isIn Lexeme.noConfusion
    | notKw =>
      match k? with
      | some (.keyword second) =>
        cases second with
        | inKw =>
          refine .advance_bind Lexeme.noConfusion fun _ _ _ => .advance_any_bind fun _ _ _ _ => ?_
          exact .pure rfl rfl
        | _ => exact hnone
      | none | some .indent | some .dedent | some .newline | some .eof | some (.symbol _)
      | some (.identifier _) | some (.integer _) | some (.float _) | some (.string _)
      | some (.formatted _) | some (.comment _) => exact hnone
    | _ => exact hnone
  | .indent | .dedent | .newline | .eof | .identifier _ | .integer _ | .float _ | .string _
  | .formatted _ | .comment _ => exact hnone

theorem agree_comparison (hp : ExprAgree v m p p') :
    Agree v heads (m + 1) (ExprTwin v) (fun _ => 1) (comparison p) (comparison p') := by
  refine (agree_sum hp).bind fun left left' hleft => ?_
  refine agree_comparisonOp?.bind fun op op' hop => ?_
  subst hop
  cases op with
  | none => exact .pure hleft rfl
  | some op =>
    refine ((agree_sum hp).restrict (by omega)).bind fun right right' hright => ?_
    exact .pure (hleft.binary op hright) rfl

theorem agree_negation (hp : ExprAgree v m p p') :
    Agree v heads (m + 1) (ExprTwin v) (fun _ => 1) (negation p) (negation p') := by
  refine .isAt_bind ?_ ((agree_comparison hp).restrict (Nat.le_refl _))
  refine .advance_bind Lexeme.noConfusion fun span span' _ => ?_
  refine hp.negation.bind fun operand operand' hoperand => ?_
  exact .pure (hoperand.unary .not span span') rfl

theorem agree_disjunction (hp : ExprAgree v m p p') :
    Agree v heads (m + 1) (ExprTwin v) (fun _ => 1) (disjunction p) (disjunction p') :=
  agree_chain rfl (agree_chain rfl (agree_negation hp))

theorem agree_conditional (hp : ExprAgree v m p p') :
    Agree v heads (m + 1) (ExprTwin v) (fun _ => 1) (conditional p) (conditional p') := by
  refine (agree_disjunction hp).bind fun value value' hvalue => ?_
  refine .accept_bind Lexeme.noConfusion (fun _ => ?_) (.pure hvalue rfl)
  refine ((agree_disjunction hp).restrict (by omega)).bind fun condition condition' hcondition => ?_
  refine .expect_bind Lexeme.noConfusion fun _ _ _ => ?_
  refine (hp.expr.restrict (by omega)).bind fun other other' hother => ?_
  exact .pure (.conditional hcondition hvalue hother _ _) rfl

/-- Parsers of expressions agree on twins with no more tokens than their depths. -/
theorem exprAgree : ∀ m d d', m ≤ d → m ≤ d' → ExprAgree v m (exprParsers d) (exprParsers d') := by
  intro m
  induction m with
  | zero => exact fun d d' _ _ => ⟨.zero (Nat.le_refl 0), .zero (Nat.le_refl 0), .zero (Nat.le_refl 0)⟩
  | succ m ih =>
    intro d d' hd hd'
    obtain ⟨d, rfl⟩ := Nat.exists_eq_add_one_of_ne_zero (show d ≠ 0 by omega)
    obtain ⟨d', rfl⟩ := Nat.exists_eq_add_one_of_ne_zero (show d' ≠ 0 by omega)
    have hp : ExprAgree v m (exprParsers d) (exprParsers d') := ih d d' (by omega) (by omega)
    exact ⟨agree_conditional hp, agree_signed hp, agree_negation hp⟩

end Parser

end StagedScript.Syntax
