import StagedScript.Proofs.Syntax.ExpressionAgreement
import StagedScript.Proofs.Syntax.Settling

/-!
# Expressions with budgets that suffice

A parser reaches a nested part only behind a token that it took, and the text of
a field only behind the formatted string, which is longer by two braces at least.
So the depth of nesting that the tokens count for is enough.
-/

namespace StagedScript.Syntax

open Text

/-! ## Fields -/

theorem length_trim_le (t : String) : (trim t).length ≤ t.length := by
  rw [trim, trimEnd, trimEndWhile, trimStart, trimStartWhile, ← String.length_toList,
    ← String.length_toList, String.toList_ofList, String.toList_ofList, List.length_reverse]
  refine Nat.le_trans (List.dropWhile_suffix _).length_le ?_
  rw [List.length_reverse]
  exact (List.dropWhile_suffix _).length_le

theorem length_fieldParts_le (cs : List Char) : (fieldParts cs).1.length ≤ cs.length := by
  unfold fieldParts
  have hlength : cs.reverse.length = cs.length := List.length_reverse
  rw [← hlength]
  split
  · next heq =>
    rw [heq, List.length_reverse, List.length_cons, List.length_cons]
    omega
  · next heq =>
    rw [heq, List.length_reverse, List.length_cons, List.length_cons]
    omega
  · exact Nat.le_of_eq List.length_reverse.symm

/-- The text of a field is shorter than the body by its two braces. -/
theorem length_field_piecesFrom (text cs : List Char) {field : String} {written : Bool}
    (h : .field field written ∈ (piecesFrom text cs).1) : field.length + 2 ≤ cs.length := by
  have hflush (text : List Char) : Piece.field field written ∉ flush text := by
    unfold flush
    split
    · exact List.not_mem_nil
    · exact fun hmem => Piece.noConfusion (List.mem_singleton.mp hmem)
  fun_induction piecesFrom text cs with
  | case1 text => exact absurd h (hflush text)
  | case2 text cs ih => exact Nat.le_trans (ih h) (Nat.le_add_right cs.length 2)
  | case3 text cs ih => exact Nat.le_trans (ih h) (Nat.le_add_right cs.length 2)
  | case8 text c cs _ _ _ _ ih => exact Nat.le_succ_of_le (ih h)
  | case4 | case5 | case6 => exact absurd h List.not_mem_nil
  | case7 text cs hopen inner rest hend expr mark hparts hblank later fault hlater ih =>
    have hfield := length_fieldEnd? hend
    rw [List.length_cons]
    rcases List.mem_append.mp h with hmem | hmem
    · exact absurd hmem (hflush text)
    rcases List.mem_cons.mp hmem with heq | hmem
    · obtain ⟨rfl, -⟩ := Piece.field.inj heq
      have htrim := length_trim_le (String.ofList expr)
      have hexpr := length_fieldParts_le inner
      rw [hparts] at hexpr
      rw [String.length_ofList] at htrim
      change expr.length ≤ inner.length at hexpr
      omega
    · rw [hlater] at ih
      have := ih hmem
      omega

theorem length_field {body field : String} {written : Bool}
    (h : .field field written ∈ (bodyPieces body).1) : field.length + 2 ≤ body.length := by
  rw [← String.length_toList (s := body)]
  exact length_field_piecesFrom [] body.toList h

namespace Parser

variable {heads : Lexeme → Prop} {s m : Nat}

/-- The parsers for nested parts settle with less load, and the texts of fields that count less are
read alike. -/
structure ExprSettles (m : Nat) (p p' : ExprParsers) : Prop where
  expr (s : Nat) : Settles anyHead s (m - 1) (fun _ => 1) p.expr p'.expr
  signed (s : Nat) : Settles anyHead s (m - 1) (fun _ => 1) p.signed p'.signed
  negation (s : Nat) : Settles anyHead s (m - 1) (fun _ => 1) p.negation p'.negation
  whole (text : String) (fits : nestingBound text ≤ m) :
    p.whole text = p'.whole text ∧ p.whole text ≠ .error .exhausted

variable {p p' : ExprParsers}

theorem ExprSettles.restrict {m' : Nat} (hp : ExprSettles m p p') (hm : m' ≤ m) :
    ExprSettles m' p p' where
  expr s := (hp.expr s).restrict (Nat.le_refl s) (by omega)
  signed s := (hp.signed s).restrict (Nat.le_refl s) (by omega)
  negation s := (hp.negation s).restrict (Nat.le_refl s) (by omega)
  whole text fits := hp.whole text (Nat.le_trans fits hm)

/-! ## Atoms -/

theorem settles_adjacentStrings : ∀ n n' s, s ≤ n → s ≤ n' →
    Settles heads s m (fun _ => 0) (adjacentStrings n) (adjacentStrings n') := by
  intro n
  induction n generalizing heads m with
  | zero => exact fun n' s hn _ => .of_no_tokens hn
  | succ n ih =>
    intro n' s hn hn'
    refine .rounds hn hn' ?_
    rintro _ n' ⟨⟩ rfl
    refine .peek_bind fun k _ => ?_
    cases k with
    | string text =>
      refine .advance_bind Lexeme.noConfusion fun _ _ => ?_
      exact (ih n' (s - 1) (by omega) (by omega)).bind fun more => .pure rfl
    | _ => exact .pure rfl

theorem settles_integerLiteral (magnitude : Nat) (span : Span) :
    Settles heads s m (fun _ => 0) (integerLiteral magnitude span)
      (integerLiteral magnitude span) := by
  unfold integerLiteral
  split
  · exact .pure rfl
  · exact .invalid _ _

theorem settles_parenthesized (hp : ExprSettles m p p') (span : Span) :
    Settles anyHead s (m - 1) (fun _ => 0) (parenthesized p span) (parenthesized p' span) := by
  refine .acceptSymbol_bind (.pure rfl) ((hp.expr s).bind fun first => ?_)
  refine .acceptSymbol_bind (.pure rfl) ?_
  refine (Settles.bounded fun n n' s' hn hn' hs =>
    settles_itemsAfter (hp.expr s) .comma _ n n' s' _ hn hn' (by omega) (by omega)).bind
    fun others => ?_
  exact .expectSymbol_bind (.pure rfl)

theorem settles_dictEntry (hp : ExprSettles m p p') :
    Settles anyHead s (m - 1) (fun _ => 1) (dictEntry p) (dictEntry p') := by
  refine (hp.expr s).bind fun key => .expect_bind Lexeme.noConfusion fun _ => ?_
  exact ((hp.expr s).restrict (by omega) (by omega)).bind fun value => .pure rfl

/-- What follows a reading that runs out of no budget. -/
theorem bind_settles {α β : Type} {x y : Except SyntaxFault α} {f g : α → Except SyntaxFault β}
    (hx : x = y ∧ x ≠ .error .exhausted)
    (h : ∀ a, x = .ok a → f a = g a ∧ f a ≠ .error .exhausted) :
    (x >>= f) = (y >>= g) ∧ (x >>= f) ≠ .error .exhausted := by
  obtain ⟨rfl, hinside⟩ := hx
  cases x with
  | error e => exact ⟨rfl, fun h => hinside (congrArg Except.error (Except.error.inj h))⟩
  | ok a => exact h a rfl

theorem pure_settles {α : Type} (a : α) :
    (pure a : Except SyntaxFault α) = pure a ∧
      (pure a : Except SyntaxFault α) ≠ .error .exhausted :=
  ⟨rfl, fun h => by cases h⟩

theorem mapM_settles {α β : Type} {f g : α → Except SyntaxFault β} {as : List α}
    (h : ∀ a ∈ as, f a = g a ∧ f a ≠ .error .exhausted) :
    as.mapM f = as.mapM g ∧ as.mapM f ≠ .error .exhausted := by
  induction as with
  | nil => exact pure_settles []
  | cons a as ih =>
    obtain ⟨hfirst, hothers⟩ := List.forall_mem_cons.mp h
    rw [List.mapM_cons, List.mapM_cons]
    exact bind_settles hfirst fun _ _ => bind_settles (ih hothers) fun _ _ => pure_settles _

/-- The parts of a formatted string are read alike, since its fields count less. -/
theorem formattedParts_settles (hp : ExprSettles m p p') {body : String}
    (hload : (Lexeme.formatted body).load ≤ m) (span : Span) :
    formattedParts p span body = formattedParts p' span body ∧
      formattedParts p span body ≠ .error .exhausted := by
  unfold formattedParts
  refine bind_settles (mapM_settles fun piece hpiece => ?piece) fun parts _ => ⟨rfl, ?fault⟩
  case piece =>
    cases piece with
    | literal text => exact pure_settles _
    | field text written =>
      have hshort := length_field hpiece
      have hfits : nestingBound text ≤ m := by
        rw [Lexeme.load] at hload
        rw [nestingBound]
        omega
      exact bind_settles (hp.whole text hfits) fun _ _ => pure_settles _
  case fault =>
    split
    · exact fun h => SyntaxFault.noConfusion (Except.error.inj h)
    · exact (pure_settles parts).2

theorem settles_atom (hp : ExprSettles m p p') :
    Settles heads s m (fun _ => 1) (atom p) (atom p') := by
  refine .peekToken_bind fun k span _ => ?_
  cases k with
  | identifier name => exact .advance_bind Lexeme.noConfusion fun _ _ => .pure rfl
  | integer magnitude =>
    refine .advance_bind Lexeme.noConfusion fun _ _ => ?_
    exact (settles_integerLiteral magnitude span).bind fun _ => .pure rfl
  | float x => exact .advance_bind Lexeme.noConfusion fun _ _ => .pure rfl
  | string text =>
    refine .advance_bind Lexeme.noConfusion fun _ _ => ?_
    exact (Settles.bounded fun n n' s' hn hn' _ =>
      settles_adjacentStrings n n' s' hn hn').bind fun more => .pure rfl
  | formatted body =>
    refine .advance_bind Lexeme.noConfusion fun _ hload => ?_
    obtain ⟨hsame, hinside⟩ := formattedParts_settles hp hload span
    have hparts : Settles anyHead (s - 1) (m - 1) (fun _ => 0)
        (liftM (formattedParts p span body) : Parser _)
        (liftM (formattedParts p' span body) : Parser _) :=
      hsame ▸ .lift hinside fun _ => rfl
    exact hparts.bind fun _ => .pure rfl
  | keyword word =>
    cases word with
    | trueKw | falseKw | noneKw => exact .advance_bind Lexeme.noConfusion fun _ _ => .pure rfl
    | _ => exact .unexpected _
  | symbol sign =>
    cases sign with
    | leftParen =>
      exact .advance_bind Lexeme.noConfusion fun _ _ => settles_parenthesized hp span
    | leftBracket =>
      refine .advance_bind Lexeme.noConfusion fun _ _ => ?_
      exact (settles_itemsUntil (hp.expr _) .rightBracket).bind fun items => .pure rfl
    | leftBrace =>
      refine .advance_bind Lexeme.noConfusion fun _ _ => ?_
      exact (settles_itemsUntil (settles_dictEntry hp) .rightBrace).bind fun entries => .pure rfl
    | _ => exact .unexpected _
  | _ => exact .unexpected _

theorem settles_extendAll {extend extend' : Expr → Parser (Option Expr)}
    (hextend : ∀ s' e, s' ≤ s →
      Settles anyHead s' m takenBy (extend e) (extend' e)) :
    ∀ n n' s' m', s' ≤ n → s' ≤ n' → s' ≤ s → m' ≤ m → ∀ e,
      Settles heads s' m' (fun _ => 0) (extendAll extend n e) (extendAll extend' n' e) := by
  intro n
  induction n generalizing heads with
  | zero => exact fun n' s' m' hn _ _ _ _ => .of_no_tokens hn
  | succ n ih =>
    intro n' s' m' hn hn' hs hm e
    cases n' with
    | zero => exact .of_no_tokens hn'
    | succ n' =>
      refine ((hextend s' e hs).restrict (Nat.le_refl s') hm).bind fun longer => ?_
      cases longer with
      | none => exact .pure rfl
      | some longer =>
        exact ih n' (s' - 1) (m' - 1) (by omega) (by omega) (by omega) (by omega) longer

theorem settles_exprListOf {expr expr' : Parser Expr}
    (hexpr : Settles anyHead s m (fun _ => 1) expr expr') :
    Settles heads s m (fun _ => 1) (exprListOf expr) (exprListOf expr') := by
  refine (hexpr.restrict (Nat.le_refl s) (Nat.le_refl m)).bind fun first => ?_
  refine .isAt_bind ?_ (.pure rfl)
  exact (Settles.bounded fun n n' s' hn hn' hs => settles_itemsAfter hexpr .comma startsExpr n n' s'
    _ hn hn' (by omega) (by omega)).bind fun others => .pure rfl

theorem settles_trailer (hp : ExprSettles m p p') (e : Expr) :
    Settles anyHead s m takenBy (trailer p e) (trailer p' e) := by
  refine .acceptSymbol_bind ?_ (.acceptSymbol_bind ?_ (.acceptSymbol_bind ?_ (.pure rfl)))
  · exact (settles_itemsUntil (hp.expr _) .rightParen).bind fun args => .pure rfl
  · exact .identifier_bind fun field span => .pure rfl
  · refine (settles_exprListOf (hp.expr _)).bind fun index => ?_
    exact .expectSymbol_bind (.pure rfl)

/-! ## Levels -/

theorem settles_postfixExpr (hp : ExprSettles m p p') :
    Settles heads s m (fun _ => 1) (postfixExpr p) (postfixExpr p') := by
  refine (settles_atom hp).bind fun start => ?_
  exact .bounded fun n n' s' hn hn' _ =>
    settles_extendAll (fun _ e _ => settles_trailer hp e) n n' s' _ hn hn' (Nat.le_refl s')
      (Nat.sub_le m 1) start

theorem settles_power (hp : ExprSettles m p p') :
    Settles heads s m (fun _ => 1) (power p) (power p') := by
  refine (settles_postfixExpr hp).bind fun base => ?_
  refine .acceptSymbol_bind ?_ (.pure rfl)
  exact ((hp.signed _).restrict (Nat.le_refl _) (by omega)).bind fun exponent => .pure rfl

theorem settles_signed (hp : ExprSettles m p p') :
    Settles heads s m (fun _ => 1) (signed p) (signed p') := by
  have hop (op : UnaryOp) {k : Lexeme} (hk : k ≠ .eof) :
      let parser (p : ExprParsers) : Parser Expr := do
        let span := (← advance).span
        if op = .neg ∧ (← peek) = .integer (Nat.pow 2 63) then
          let digits := (← advance).span
          return .constant (.int Int64.minValue) (span.merge digits)
        else
          return .unary op (← p.signed) span
      Settles (· = k) s m (fun _ => 1) (parser p) (parser p') := by
    refine .advance_bind hk fun span _ => .peek_bind fun k _ => ?_
    by_cases hleast : op = .neg ∧ k = .integer (Nat.pow 2 63)
    · rw [if_pos hleast, if_pos hleast]
      obtain ⟨-, rfl⟩ := hleast
      exact .advance_bind Lexeme.noConfusion fun digits _ => .pure rfl
    · rw [if_neg hleast, if_neg hleast]
      exact ((hp.signed _).restrict (Nat.le_refl _) (Nat.le_refl _)).bind fun operand => .pure rfl
  have hpower {k : Lexeme} : Settles (· = k) s m (fun _ => 1) (power p) (power p') :=
    settles_power hp
  refine .peek_bind fun k _ => ?_
  match k with
  | .symbol sign =>
    cases sign with
    | minus => exact hop .neg Lexeme.noConfusion
    | plus => exact hop .pos Lexeme.noConfusion
    | _ => exact hpower
  | .indent | .dedent | .newline | .eof | .keyword _ | .identifier _ | .integer _ | .float _
  | .string _ | .formatted _ | .comment _ => exact hpower

theorem settles_chain {op? : Lexeme → Option BinaryOp} (hop : op? .eof = none)
    {operand operand' : Parser Expr}
    (hoperand : ∀ s, Settles anyHead s m (fun _ => 1) operand operand') :
    Settles heads s m (fun _ => 1) (chain op? operand) (chain op? operand') := by
  refine ((hoperand s).restrict (Nat.le_refl s) (Nat.le_refl m)).bind fun first => ?_
  refine .bounded fun n n' s' hn hn' _ => settles_extendAll (m := m) (fun s' left _ => ?_) n n' s' _
    hn hn' (Nat.le_refl s') (Nat.sub_le m 1) first
  refine .peek_bind fun k _ => ?_
  cases hk : op? k with
  | none => exact .pure rfl
  | some op =>
    refine .advance_bind (fun heq => ?_) fun _ _ => ?_
    · rw [heq, hop] at hk
      cases hk
    · exact ((hoperand _).restrict (Nat.le_refl _) (by omega)).bind fun right => .pure rfl

theorem settles_sum (hp : ExprSettles m p p') :
    Settles heads s m (fun _ => 1) (sum p) (sum p') :=
  settles_chain rfl fun _ => settles_chain rfl fun _ => settles_signed hp

theorem settles_comparisonOp? :
    Settles heads s m (fun op => if op.isSome then 1 else 0) comparisonOp? comparisonOp? := by
  refine .peek_bind fun k _ => .peekSecond_bind fun k? => ?_
  have hnone {k : Lexeme} : Settles (· = k) s m (fun op => if op.isSome then 1 else 0)
      (pure none : Parser (Option BinaryOp)) (pure none) := .pure rfl
  have hsome (op : BinaryOp) {k : Lexeme} (hk : k ≠ .eof) :
      Settles (· = k) s m (fun op => if op.isSome then 1 else 0)
        (do let _ ← advance; return some op) (do let _ ← advance; return some op) :=
    .advance_bind hk fun _ _ => .pure rfl
  match k with
  | .symbol sign =>
    cases sign with
    | eqEq => exact hsome .eq Lexeme.noConfusion
    | notEq => exact hsome .ne Lexeme.noConfusion
    | lt => exact hsome .lt Lexeme.noConfusion
    | gt => exact hsome .gt Lexeme.noConfusion
    | ltEq => exact hsome .le Lexeme.noConfusion
    | gtEq => exact hsome .ge Lexeme.noConfusion
    | _ => exact hnone
  | .keyword word =>
    cases word with
    | inKw => exact hsome .isIn Lexeme.noConfusion
    | notKw =>
      match k? with
      | some (.keyword second) =>
        cases second with
        | inKw =>
          exact .advance_bind Lexeme.noConfusion fun _ _ => .advance_any_bind fun _ _ => .pure rfl
        | _ => exact hnone
      | none | some .indent | some .dedent | some .newline | some .eof | some (.symbol _)
      | some (.identifier _) | some (.integer _) | some (.float _) | some (.string _)
      | some (.formatted _) | some (.comment _) => exact hnone
    | _ => exact hnone
  | .indent | .dedent | .newline | .eof | .identifier _ | .integer _ | .float _ | .string _
  | .formatted _ | .comment _ => exact hnone

theorem settles_comparison (hp : ExprSettles m p p') :
    Settles heads s m (fun _ => 1) (comparison p) (comparison p') := by
  refine (settles_sum hp).bind fun left => settles_comparisonOp?.bind fun op => ?_
  cases op with
  | none => exact .pure rfl
  | some op =>
    exact ((settles_sum hp).restrict (Nat.le_refl _) (by omega)).bind fun right => .pure rfl

theorem settles_negation (hp : ExprSettles m p p') :
    Settles heads s m (fun _ => 1) (negation p) (negation p') := by
  refine .isAt_bind ?_ ((settles_comparison hp).restrict (Nat.le_refl _) (Nat.le_refl _))
  refine .advance_bind Lexeme.noConfusion fun span _ => ?_
  exact (hp.negation _).bind fun operand => .pure rfl

theorem settles_disjunction (hp : ExprSettles m p p') :
    Settles heads s m (fun _ => 1) (disjunction p) (disjunction p') :=
  settles_chain rfl fun _ => settles_chain rfl fun _ => settles_negation hp

theorem settles_conditional (hp : ExprSettles m p p') :
    Settles heads s m (fun _ => 1) (conditional p) (conditional p') := by
  refine (settles_disjunction hp).bind fun value => ?_
  refine .accept_bind Lexeme.noConfusion ?_ (.pure rfl)
  refine ((settles_disjunction hp).restrict (Nat.le_refl _) (by omega)).bind fun condition => ?_
  refine .expect_bind Lexeme.noConfusion fun _ => ?_
  exact ((hp.expr _).restrict (Nat.le_refl _) (by omega)).bind fun other => .pure rfl

theorem settles_wholeExpr {expr expr' : Parser Expr}
    (hexpr : Settles anyHead s m (fun _ => 1) expr expr') :
    Settles anyHead s m (fun _ => 0) (wholeExpr expr) (wholeExpr expr') := by
  refine (settles_exprListOf hexpr).bind fun value => settles_skipNewlines.bind fun _ => ?_
  exact .isAt_bind (.pure rfl) (.unexpected _)

/-- Complete tokens are read alike, and no budget runs out. -/
theorem value_settles {α : Type} {taken : α → Nat} {x y : Parser α} {ts : List Token}
    (h : Settles anyHead ts.length (load ts) taken x y) (hts : Complete anyHead ts) {n n' : Nat}
    (hn : ts.length < n) (hn' : ts.length < n') :
    (x n ts).map Prod.fst = (y n' ts).map Prod.fst ∧
      (x n ts).map Prod.fst ≠ .error .exhausted := by
  have hout := h n n' ts hts (fun _ _ => trivial) (Nat.le_refl _) (Nat.le_refl _) hn hn'
  revert hout
  generalize x n ts = out
  generalize y n' ts = out'
  intro hout
  cases hout with
  | ok => exact ⟨rfl, fun h => by cases h⟩
  | error inside => exact ⟨rfl, fun h => inside (Except.error.inj h)⟩

theorem readFrom_eq {α : Type} (x : Parser α) (ts : List Token) :
    x.readFrom ts = (x (ts.length + 1) ts).map Prod.fst := rfl

theorem complete_of_tokens {source : String} {ts : List Token} (h : tokens source = .ok ts) :
    Complete anyHead ts :=
  (tokens_complete h).1.mono fun _ _ _ => trivial

theorem whole_eq (d : Nat) (text : String) :
    (exprParsers (d + 1)).whole text =
      tokens text >>= (wholeExpr (conditional (exprParsers d))).readFrom := rfl

/-- Parsers of expressions settle on tokens with no more load than their depths. -/
theorem exprSettles : ∀ m d d', m ≤ d → m ≤ d' →
    ExprSettles m (exprParsers d) (exprParsers d') := by
  intro m
  induction m with
  | zero =>
    intro d d' _ _
    have hnone {x y : Parser Expr} (s : Nat) : Settles anyHead s (0 - 1) (fun _ => 1) x y :=
      .of_no_load (Nat.le_refl 0)
    refine ⟨hnone, hnone, hnone, fun text fits => ?_⟩
    rw [nestingBound] at fits
    omega
  | succ m ih =>
    intro d d' hd hd'
    obtain ⟨d, rfl⟩ := Nat.exists_eq_add_one_of_ne_zero (show d ≠ 0 by omega)
    obtain ⟨d', rfl⟩ := Nat.exists_eq_add_one_of_ne_zero (show d' ≠ 0 by omega)
    have hp : ExprSettles m (exprParsers d) (exprParsers d') := ih d d' (by omega) (by omega)
    refine ⟨fun _ => settles_conditional hp, fun _ => settles_signed hp,
      fun _ => settles_negation hp, fun text fits => ?_⟩
    rw [whole_eq, whole_eq]
    refine bind_settles ⟨rfl, tokens_inside text⟩ fun ts hts => ?_
    have hload := load_tokens hts
    rw [nestingBound] at fits
    have hwhole : Settles anyHead ts.length (load ts) (fun _ => 0)
        (wholeExpr (conditional (exprParsers d))) (wholeExpr (conditional (exprParsers d'))) :=
      settles_wholeExpr ((settles_conditional hp).restrict (Nat.le_refl _) (by omega))
    rw [readFrom_eq, readFrom_eq]
    exact value_settles hwhole (complete_of_tokens hts) (Nat.lt_succ_self _) (Nat.lt_succ_self _)

end Parser

end StagedScript.Syntax
