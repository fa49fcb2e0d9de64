import StagedScript.Proofs.Syntax.ExpressionSettling
import StagedScript.Proofs.Syntax.StatementAgreement

/-!
# Statements with budgets that suffice

A statement reaches a nested one, and a pattern a nested one, only behind a token
that it took.  So readers of statements settle as those of expressions do, and
reading a text always ends: with its tree or with an error about the text, never
because a budget ran out.
-/

namespace StagedScript.Syntax

open Text

namespace Parser

variable {heads : Lexeme → Prop} {s m : Nat} {p p' : ExprParsers}

/-! ## Patterns -/

theorem settles_fieldsAfter : ∀ n n' s, s ≤ n → s ≤ n' → ∀ m e,
    Settles heads s m (fun _ => 0) (fieldsAfter n e) (fieldsAfter n' e) := by
  intro n
  induction n generalizing heads with
  | zero => exact fun n' s hn _ _ _ => .of_no_tokens hn
  | succ n ih =>
    intro n' s hn hn' m e
    cases n' with
    | zero => exact .of_no_tokens hn'
    | succ n' =>
      refine .acceptSymbol_bind ?_ (.pure rfl)
      exact .identifier_bind fun field span => ih n' (s - 1 - 1) (by omega) (by omega) _ _

theorem settles_negativePattern (span : Span) :
    Settles heads s m (fun _ => 0) (negativePattern span) (negativePattern span) := by
  refine .advance_any_bind fun k place => ?_
  cases k with
  | integer magnitude =>
    dsimp only
    split
    · exact .pure rfl
    · exact .invalid _ _
  | float x => exact .pure rfl
  | _ => exact .invalid _ _

theorem settles_bracketPattern {inner inner' : Parser Pattern} (stop : Symbol)
    (hinner : Settles anyHead s m (fun _ => 1) inner inner') :
    Settles heads s m (fun _ => 0) (bracketPattern inner stop) (bracketPattern inner' stop) := by
  refine (Settles.bounded fun n n' s' hn hn' hs =>
    settles_itemsBefore hinner stop n n' s' m hn hn' hs (Nat.le_refl m)).bind fun read => ?_
  obtain ⟨items, comma⟩ := read
  refine .expect_bind Lexeme.noConfusion fun _ => ?_
  split <;> exact .pure rfl

theorem settles_closedPattern {inner inner' : Parser Pattern} (hp : ExprSettles m p p')
    (hinner : Settles anyHead (s - 1) m (fun _ => 1) inner inner') :
    Settles heads s m (fun _ => 1) (closedPattern p inner) (closedPattern p' inner') := by
  refine .peekToken_bind fun k span _ => ?_
  have hinner' : Settles anyHead (s - 1) (m - 1) (fun _ => 1) inner inner' :=
    hinner.restrict (Nat.le_refl _) (Nat.sub_le m 1)
  have hliteral {k : Lexeme} : Settles (· = k) s m (fun _ => 1)
      (do return Pattern.value (← atom p)) (do return Pattern.value (← atom p')) :=
    (settles_atom hp).bind fun _ => .pure rfl
  cases k with
  | identifier name =>
    refine .peekSecond_bind fun second => .advance_bind Lexeme.noConfusion fun _ _ => ?_
    split
    · exact .pure rfl
    split
    · refine (Settles.bounded fun n n' s' hn hn' _ =>
        settles_fieldsAfter n n' s' hn hn' _ _).bind fun e => .pure rfl
    · exact .pure rfl
  | integer _ | float _ | string _ => exact hliteral
  | keyword word =>
    cases word with
    | trueKw | falseKw | noneKw => exact hliteral
    | _ => exact .unexpected _
  | symbol sign =>
    cases sign with
    | leftParen =>
      exact .advance_bind Lexeme.noConfusion fun _ _ => settles_bracketPattern .rightParen hinner'
    | leftBracket =>
      exact .advance_bind Lexeme.noConfusion fun _ _ => settles_bracketPattern .rightBracket hinner'
    | minus => exact .advance_bind Lexeme.noConfusion fun _ _ => settles_negativePattern span
    | _ => exact .unexpected _
  | _ => exact .unexpected _

theorem settles_orPattern {inner inner' : Parser Pattern} (hp : ExprSettles m p p')
    (hinner : Settles anyHead (s - 1) m (fun _ => 1) inner inner') :
    Settles heads s m (fun _ => 1) (orPattern p inner) (orPattern p' inner') := by
  have hclosed {heads : Lexeme → Prop} : Settles heads s m (fun _ => 1) (closedPattern p inner)
      (closedPattern p' inner') := settles_closedPattern hp hinner
  refine hclosed.bind fun first => .isAt_bind ?_ (.pure rfl)
  exact (Settles.bounded fun n n' s' hn hn' hs => settles_itemsAfter hclosed .pipe _ n n' s' _ hn
    hn' (by omega) (by omega)).bind fun others => .pure rfl

/-- Patterns that are read within depths not below the number of tokens. -/
theorem settles_patternWithin (hp : ExprSettles m p p') : ∀ s n n', s ≤ n → s ≤ n' →
    Settles heads s m (fun _ => 1) (patternWithin p n) (patternWithin p' n') := by
  intro s
  induction s generalizing heads with
  | zero => exact fun _ _ _ _ => .of_no_tokens (Nat.le_refl 0)
  | succ s ih =>
    intro n n' hn hn'
    obtain ⟨n, rfl⟩ := Nat.exists_eq_add_one_of_ne_zero (show n ≠ 0 by omega)
    obtain ⟨n', rfl⟩ := Nat.exists_eq_add_one_of_ne_zero (show n' ≠ 0 by omega)
    exact settles_orPattern hp (ih n n' (by omega) (by omega))

theorem settles_casePattern (hp : ExprSettles m p p') :
    Settles heads s m (fun _ => 1) (casePattern p) (casePattern p') := by
  have hpattern {heads : Lexeme → Prop} : Settles heads s m (fun _ => 1)
      (bounded (patternWithin p)) (bounded (patternWithin p')) :=
    .bounded fun n n' s' hn hn' _ => settles_patternWithin hp s' n n' hn hn'
  refine hpattern.bind fun first => .isAt_bind ?_ (.pure rfl)
  exact (Settles.bounded fun n n' s' hn hn' hs => settles_itemsAfter hpattern .comma _ n n' s' _
    hn hn' (by omega) (by omega)).bind fun others => .pure rfl

/-! ## Simple statements -/

theorem settles_checkTarget (e : Expr) :
    Settles heads s m (fun _ => 0) (checkTarget e) (checkTarget e) := by
  unfold checkTarget
  split
  · exact .invalid _ _
  · exact .pure rfl

theorem settles_optionalExpr {expr expr' : Parser Expr}
    (hexpr : ∀ {heads}, Settles heads s m (fun _ => 1) expr expr') :
    Settles heads s m (fun _ => 0) (optionalExpr expr) (optionalExpr expr') := by
  refine .peek_bind fun k _ => ?_
  cases startsExpr k with
  | false => exact .pure rfl
  | true => exact hexpr.bind fun e => .pure rfl

theorem settles_dottedTail : ∀ n n' s, s ≤ n → s ≤ n' → ∀ m,
    Settles heads s m (fun _ => 0) (dottedTail n) (dottedTail n') := by
  intro n
  induction n generalizing heads with
  | zero => exact fun n' s hn _ _ => .of_no_tokens hn
  | succ n ih =>
    intro n' s hn hn' m
    refine .rounds hn hn' ?_
    rintro _ n' ⟨⟩ rfl
    refine .acceptSymbol_bind ?_ (.pure rfl)
    refine .identifier_bind fun name _ => ?_
    exact (ih n' (s - 1 - 1) (by omega) (by omega) _).bind fun text => .pure rfl

theorem settles_dottedName : Settles heads s m (fun _ => 1) dottedName dottedName := by
  refine .identifier_bind fun name _ => ?_
  exact (Settles.bounded fun n n' s' hn hn' _ =>
    settles_dottedTail n n' s' hn hn' _).bind fun text => .pure rfl

theorem settles_aliasOf {name : Parser String} (hname : Settles heads s m (fun _ => 1) name name) :
    Settles heads s m (fun _ => 1) (aliasOf name) (aliasOf name) := by
  refine hname.bind fun text => .accept_bind Lexeme.noConfusion ?_ (.pure rfl)
  exact .identifier_bind fun new _ => .pure rfl

theorem settles_importModules (span : Span) :
    Settles heads s m (fun _ => 1) (importModules span) (importModules span) := by
  have halias {heads : Lexeme → Prop} : Settles heads s m (fun _ => 1) (aliasOf dottedName)
      (aliasOf dottedName) := settles_aliasOf settles_dottedName
  refine halias.bind fun first => ?_
  exact (Settles.bounded fun n n' s' hn hn' hs => settles_itemsAfter halias .comma _ n n' s' _ hn
    hn' (by omega) (by omega)).bind fun others => .pure rfl

theorem settles_leadingDots : ∀ n n' s, s ≤ n → s ≤ n' → ∀ m,
    Settles heads s m (fun _ => 0) (leadingDots n) (leadingDots n') := by
  intro n
  induction n generalizing heads with
  | zero => exact fun n' s hn _ _ => .of_no_tokens hn
  | succ n ih =>
    intro n' s hn hn' m
    refine .rounds hn hn' ?_
    rintro _ n' ⟨⟩ rfl
    refine .acceptSymbol_bind ?_ (.pure rfl)
    exact (ih n' (s - 1) (by omega) (by omega) _).bind fun dots => .pure rfl

theorem settles_importFrom (level : Nat) (module? : Option String) (span : Span) :
    Settles heads s m (fun _ => 1) (importFrom level module? span)
      (importFrom level module? span) := by
  have halias {heads : Lexeme → Prop} {s m : Nat} :
      Settles heads s m (fun _ => 1) (aliasOf (return (← identifier "imported name").1))
        (aliasOf (return (← identifier "imported name").1)) :=
    settles_aliasOf (.identifier_bind fun name _ => .pure rfl)
  unfold importFrom
  by_cases hnone : module?.isNone = true ∧ level = 0
  · rw [if_pos hnone]
    exact fun _ _ _ _ _ _ _ _ _ => .error SyntaxFault.noConfusion
  rw [if_neg hnone]
  refine .expect_bind Lexeme.noConfusion fun _ => ?_
  have hfinish {heads : Lexeme → Prop} {s m : Nat} (names : List Alias) :
      Settles heads s m (fun _ => 0)
        (if names.isEmpty then unexpected "imported name"
          else return Stmt.importNames level module? names span)
        (if names.isEmpty then unexpected "imported name"
          else return Stmt.importNames level module? names span) := by
    split
    · exact .unexpected _
    · exact .pure rfl
  refine .acceptSymbol_bind ?_ ?_
  · exact (settles_itemsUntil halias .rightParen).bind fun names => hfinish names
  · refine halias.bind fun first => ?_
    exact (Settles.bounded fun n n' s' hn hn' _ => settles_itemsAfter (s := s) (m := m) halias
      .comma _ n n' s' _ hn hn' (by omega) (by omega)).bind fun others => hfinish (first :: others)

theorem settles_importNames (span : Span) :
    Settles heads s m (fun _ => 1) (importNames span) (importNames span) := by
  rw [importNames_eq]
  refine (Settles.bounded fun n n' s' hn hn' _ => settles_leadingDots n n' s' hn hn' _).bind
    fun level => .isAt_bind (settles_importFrom level none span) ?_
  refine settles_dottedName.bind fun name => ?_
  exact (settles_importFrom level (some name) span).mono (fun _ hk => hk) (Nat.le_refl _)
    (Nat.le_refl _) fun _ => Nat.sub_le _ _

theorem settles_exprStmt (hp : ExprSettles (m + 1) p p') :
    Settles heads s m (fun _ => 1) (exprStmt p) (exprStmt p') := by
  have hlist {m' : Nat} (hm : m' ≤ m) (s : Nat) {heads : Lexeme → Prop} :
      Settles heads s m' (fun _ => 1) (exprListOf p.expr) (exprListOf p'.expr) :=
    settles_exprListOf ((hp.expr s).restrict (Nat.le_refl s) hm)
  refine (hlist (Nat.le_refl m) s).bind fun left => .peek_bind fun k _ => ?_
  cases hop : augmentOp? k with
  | some op =>
    obtain ⟨-, hk⟩ := augmentOp?_mem hop
    refine .advance_bind hk fun _ _ => (settles_checkTarget left).bind fun _ => ?_
    exact (hlist (by omega) _).bind fun right => .pure rfl
  | none =>
    refine .acceptSymbol_bind ?_ (.pure rfl)
    exact (settles_checkTarget left).bind fun _ => (hlist (by omega) _).bind fun right => .pure rfl

theorem settles_simpleStmt (hp : ExprSettles (m + 1) p p') :
    Settles heads s m (fun _ => 1) (simpleStmt p) (simpleStmt p') := by
  refine .peekToken_bind fun k span _ => ?_
  -- A statement that takes at least one token, by itself or with the end of its line.
  have hfinish {heads : Lexeme → Prop} {s m : Nat} {taken : Stmt → Nat} (stmt : Stmt)
      (htaken : taken stmt ≤ 1) :
      Settles heads s m taken (do endOfLine; return stmt) (do endOfLine; return stmt) :=
    settles_endOfLine.bind fun _ => .pure (by omega)
  have hexpr : Settles (· = k) s m (fun _ => 1)
      (do
        let stmt ← exprStmt p
        endOfLine
        return stmt)
      (do
        let stmt ← exprStmt p'
        endOfLine
        return stmt) :=
    (settles_exprStmt hp).bind fun stmt => hfinish stmt (by omega)
  have hnested (s : Nat) {heads : Lexeme → Prop} :
      Settles heads s (m - 1) (fun _ => 1) p.expr p'.expr :=
    (hp.expr s).restrict (Nat.le_refl s) (Nat.sub_le m 1)
  cases k with
  | keyword word =>
    cases word with
    | returnKw =>
      refine .advance_bind Lexeme.noConfusion fun _ _ => ?_
      exact (settles_optionalExpr (settles_exprListOf (hnested _))).bind fun value =>
        hfinish _ (by omega)
    | raiseKw =>
      refine .advance_bind Lexeme.noConfusion fun _ _ => ?_
      exact (settles_optionalExpr (hnested _)).bind fun value => hfinish _ (by omega)
    | importKw =>
      refine .advance_bind Lexeme.noConfusion fun _ _ => ?_
      exact (settles_importModules span).bind fun stmt => hfinish stmt (by omega)
    | fromKw =>
      refine .advance_bind Lexeme.noConfusion fun _ _ => ?_
      exact (settles_importNames span).bind fun stmt => hfinish stmt (by omega)
    | passKw | breakKw | continueKw =>
      exact .advance_bind Lexeme.noConfusion fun _ _ => hfinish _ (by omega)
    | _ => exact hexpr
  | _ => exact hexpr

theorem settles_comments : ∀ n n' s, s ≤ n → s ≤ n' → ∀ m,
    Settles heads s m (fun _ => 0) (comments n) (comments n') := by
  intro n
  induction n generalizing heads with
  | zero => exact fun n' s hn _ _ => .of_no_tokens hn
  | succ n ih =>
    intro n' s hn hn' m
    refine .rounds hn hn' ?_
    rintro _ n' ⟨⟩ rfl
    refine .peek_bind fun k _ => ?_
    cases k with
    | comment text =>
      refine .advance_bind Lexeme.noConfusion fun _ _ => ?_
      exact (ih n' (s - 1) (by omega) (by omega) _).bind fun texts => .pure rfl
    | _ => exact .pure rfl

section Blocks

variable {stmt stmt' : Parser Stmt}
  (hstmt : ∀ s, Settles anyHead s (m - 1) (fun _ => 1) stmt stmt')

theorem settles_stmtsUntil {stmt stmt' : Parser Stmt}
    (hstmt : ∀ s, Settles anyHead s m (fun _ => 1) stmt stmt') (stop : Lexeme) :
    ∀ n n' s m', s ≤ n → s ≤ n' → m' ≤ m →
      Settles heads s m' (fun _ => 0) (stmtsUntil stop stmt n) (stmtsUntil stop stmt' n') := by
  intro n
  induction n generalizing heads with
  | zero => exact fun n' s m' hn _ _ => .of_no_tokens hn
  | succ n ih =>
    intro n' s m' hn hn' hm
    refine .rounds hn hn' ?_
    rintro _ n' ⟨⟩ rfl
    refine .peek_bind fun k _ => ?_
    by_cases hstop : k = stop ∨ k = .eof
    · rw [if_pos hstop, if_pos hstop]
      exact .pure rfl
    rw [if_neg hstop, if_neg hstop]
    by_cases hnewline : k = .newline
    · rw [if_pos hnewline, if_pos hnewline]
      refine .advance_bind (fun heof => hstop (.inr heof)) fun _ _ => ?_
      exact ih n' (s - 1) (m' - 1) (by omega) (by omega) (by omega)
    rw [if_neg hnewline, if_neg hnewline]
    refine ((hstmt s).restrict (Nat.le_refl s) hm).bind fun first => ?_
    exact (ih n' (s - 1) (m' - 1) (by omega) (by omega) (by omega)).bind fun others => .pure rfl

include hstmt

theorem settles_suite (hp : ExprSettles (m + 1) p p') :
    Settles heads s m (fun _ => 0) (suite p stmt) (suite p' stmt') := by
  refine .accept_bind Lexeme.noConfusion ?_ ?_
  · refine (Settles.bounded fun n n' s' hn hn' _ => settles_comments n n' s' hn hn' _).bind
      fun leading => .expect_bind Lexeme.noConfusion fun _ => ?_
    refine (Settles.bounded fun n n' s' hn hn' _ =>
      settles_stmtsUntil hstmt .dedent n n' s' _ hn hn' (by omega)).bind fun body => ?_
    exact .expect_bind Lexeme.noConfusion fun _ => .pure rfl
  · exact (settles_simpleStmt hp).bind fun stmt => .pure rfl

theorem settles_colonSuite (hp : ExprSettles (m + 1) p p') :
    Settles heads s m (fun _ => 1) (colonSuite p stmt) (colonSuite p' stmt') :=
  .expectSymbol_bind ((settles_suite hstmt hp).restrict (Nat.le_refl _) (Nat.sub_le m 1))

end Blocks

theorem settles_exprAfter (sign : Symbol) (hp : ExprSettles m p p') :
    Settles heads s m (fun _ => 0) (exprAfter sign p) (exprAfter sign p') := by
  refine .acceptSymbol_bind ?_ (.pure rfl)
  exact (hp.expr _).bind fun e => .pure rfl

theorem settles_paramsAfter (hp : ExprSettles m p p') : ∀ n n' s m', s ≤ n → s ≤ n' → m' ≤ m →
    ∀ saw, Settles heads s m' (fun _ => 0) (paramsAfter p saw n) (paramsAfter p' saw n') := by
  intro n
  induction n generalizing heads with
  | zero => exact fun n' s m' hn _ _ _ => .of_no_tokens hn
  | succ n ih =>
    intro n' s m' hn hn' hm saw
    refine .rounds hn hn' ?_
    rintro _ n' ⟨⟩ rfl
    refine .isAt_bind (.pure rfl) (.identifier_bind fun name span => ?_)
    refine (settles_exprAfter .colon (hp.restrict (by omega))).bind fun annotation => ?_
    refine (settles_exprAfter .eq (hp.restrict (by omega))).bind fun default => ?_
    dsimp only
    by_cases hmissing : default.isNone = true ∧ saw = true
    · rw [if_pos hmissing, if_pos hmissing]
      exact .invalid _ _
    rw [if_neg hmissing, if_neg hmissing]
    refine .acceptSymbol_bind ?_ (.pure rfl)
    exact (ih n' (s - 1 - 0 - 0 - 1) (m' - 1 - 0 - 0 - 1) (by omega) (by omega) (by omega) _).bind
      fun params => .pure rfl

theorem settles_decorators (hp : ExprSettles m p p') : ∀ n n' s m', s ≤ n → s ≤ n' → m' ≤ m →
    Settles heads s m' (fun _ => 0) (decorators p n) (decorators p' n') := by
  intro n
  induction n generalizing heads with
  | zero => exact fun n' s m' hn _ _ => .of_no_tokens hn
  | succ n ih =>
    intro n' s m' hn hn' hm
    refine .rounds hn hn' ?_
    rintro _ n' ⟨⟩ rfl
    refine .acceptSymbol_bind ?_ (.pure rfl)
    refine ((hp.expr _).restrict (Nat.le_refl _) (by omega)).bind fun e => ?_
    refine settles_endOfLine.bind fun _ => settles_skipNewlines.bind fun _ => ?_
    exact (ih n' (s - 1 - 1 - 1 - 0) (m' - 1 - 1 - 1 - 0) (by omega) (by omega) (by omega)).bind
      fun others => .pure rfl

section Compound

variable {stmt stmt' : Parser Stmt}
  (hstmt : ∀ s, Settles anyHead s (m - 1) (fun _ => 1) stmt stmt') (hp : ExprSettles (m + 1) p p')

include hstmt hp

theorem settles_functionDef :
    Settles heads s m (fun _ => 1) (functionDef p stmt) (functionDef p' stmt') := by
  refine (Settles.bounded fun n n' s' hn hn' _ =>
    settles_decorators hp n n' s' _ hn hn' (by omega)).bind fun decorators => ?_
  refine .expect_bind Lexeme.noConfusion fun span => ?_
  refine .identifier_bind fun name _ => .expectSymbol_bind ?_
  refine (Settles.bounded fun n n' s' hn hn' _ =>
    settles_paramsAfter hp n n' s' _ hn hn' (by omega) false).bind fun params => ?_
  refine .expectSymbol_bind ?_
  refine (settles_exprAfter .arrow (hp.restrict (by omega))).bind fun returnType => ?_
  exact ((settles_colonSuite hstmt hp).restrict (Nat.le_refl _) (by omega)).bind
    fun body => .pure rfl

/-! ## Other statements with blocks -/

theorem settles_branch : ∀ n n' s m', s ≤ n → s ≤ n' → m' ≤ m →
    Settles heads s m' (fun _ => 1) (branch p stmt n) (branch p' stmt' n') := by
  intro n
  induction n generalizing heads with
  | zero => exact fun n' s m' hn _ _ => .of_no_tokens hn
  | succ n ih =>
    intro n' s m' hn hn' hm
    refine .rounds hn hn' ?_
    rintro _ n' ⟨⟩ rfl
    refine .advance_any_bind fun _ span => ?_
    refine ((hp.expr _).restrict (Nat.le_refl _) (by omega)).bind fun condition => ?_
    refine ((settles_colonSuite hstmt hp).restrict (Nat.le_refl _) (by omega)).bind
      fun thenBlock => .peek_bind fun k _ => ?_
    cases k with
    | keyword word =>
      cases word with
      | elifKw =>
        exact (ih n' _ _ (by omega) (by omega) (by omega)).bind fun stmt => .pure rfl
      | elseKw =>
        refine .advance_bind Lexeme.noConfusion fun _ _ => ?_
        exact ((settles_colonSuite hstmt hp).restrict (Nat.le_refl _) (by omega)).bind
          fun otherwise => .pure rfl
      | _ => exact .pure rfl
    | _ => exact .pure rfl

omit hstmt in
theorem settles_loopTarget : Settles heads s m (fun _ => 1) (loopTarget p) (loopTarget p') := by
  have hitem {heads : Lexeme → Prop} (s : Nat) :
      Settles heads s m (fun _ => 1) (postfixExpr p) (postfixExpr p') :=
    settles_postfixExpr (hp.restrict (Nat.le_succ m))
  refine (hitem s).bind fun first => .isAt_bind ?_ (.pure rfl)
  exact (Settles.bounded fun n n' s' hn hn' _ => settles_itemsAfter (hitem s') .comma _ n n' s' _
    hn hn' (by omega) (by omega)).bind fun others => .pure rfl

theorem settles_cases : ∀ n n' s m', s ≤ n → s ≤ n' → m' ≤ m →
    Settles heads s m' (fun _ => 0) (cases p stmt n) (cases p' stmt' n') := by
  intro n
  induction n generalizing heads with
  | zero => exact fun n' s m' hn _ _ => .of_no_tokens hn
  | succ n ih =>
    intro n' s m' hn hn' hm
    refine .rounds hn hn' ?_
    rintro _ n' ⟨⟩ rfl
    refine .peek_bind fun k _ => ?_
    cases k with
    | dedent | eof => exact .pure rfl
    | newline | comment _ =>
      exact .advance_bind Lexeme.noConfusion fun _ _ =>
        ih n' (s - 1) (m' - 1) (by omega) (by omega) (by omega)
    | keyword word =>
      cases word with
      | caseKw =>
        refine .advance_bind Lexeme.noConfusion fun _ _ => ?_
        refine (settles_casePattern (hp.restrict (by omega))).bind fun pattern => ?_
        refine ((settles_colonSuite hstmt hp).restrict (Nat.le_refl _) (by omega)).bind
          fun body => ?_
        exact (ih n' (s - 1 - 1 - 1) (m' - 1 - 1 - 1) (by omega) (by omega) (by omega)).bind
          fun others => .pure rfl
      | _ => exact .unexpected _
    | _ => exact .unexpected _

theorem settles_matchOn (span : Span) :
    Settles heads s m (fun _ => 0) (matchOn p stmt span) (matchOn p' stmt' span) := by
  refine (settles_exprListOf (hp.expr _)).bind fun subject => .expectSymbol_bind ?_
  refine settles_endOfLine.bind fun _ => ?_
  refine (Settles.bounded fun n n' s' hn hn' _ => settles_comments n n' s' hn hn' _).bind
    fun _ => .expect_bind Lexeme.noConfusion fun _ => ?_
  refine (Settles.bounded fun n n' s' hn hn' _ =>
    settles_cases hstmt hp n n' s' _ hn hn' (by omega)).bind fun found => ?_
  exact .expect_bind Lexeme.noConfusion fun _ => .pure rfl

theorem settles_stmtOver :
    Settles heads s m (fun _ => 1) (stmtOver p stmt) (stmtOver p' stmt') := by
  refine .peekToken_bind fun k span _ => ?_
  cases k with
  | comment text => exact .advance_bind Lexeme.noConfusion fun _ _ => .pure rfl
  | symbol sign =>
    cases sign with
    | atSign => exact settles_functionDef hstmt hp
    | _ => exact settles_simpleStmt hp
  | keyword word =>
    cases word with
    | defKw => exact settles_functionDef hstmt hp
    | ifKw =>
      exact .bounded fun n n' s' hn hn' _ =>
        settles_branch hstmt hp n n' s' m hn hn' (Nat.le_refl m)
    | whileKw =>
      refine .advance_bind Lexeme.noConfusion fun _ _ => ?_
      refine ((hp.expr _).restrict (Nat.le_refl _) (by omega)).bind fun condition => ?_
      exact ((settles_colonSuite hstmt hp).restrict (Nat.le_refl _) (by omega)).bind
        fun body => .pure rfl
    | forKw =>
      refine .advance_bind Lexeme.noConfusion fun _ _ => ?_
      refine ((settles_loopTarget hp).restrict (Nat.le_refl _) (by omega)).bind fun target => ?_
      refine .expect_bind Lexeme.noConfusion fun _ => ?_
      refine (settles_exprListOf ((hp.expr _).restrict (Nat.le_refl _) (by omega))).bind
        fun iterable => ?_
      exact ((settles_colonSuite hstmt hp).restrict (Nat.le_refl _) (by omega)).bind
        fun body => .pure rfl
    | matchKw =>
      exact .advance_bind Lexeme.noConfusion fun _ _ =>
        (settles_matchOn hstmt hp span).restrict (Nat.le_refl _) (Nat.sub_le m 1)
    | _ => exact settles_simpleStmt hp
  | _ => exact settles_simpleStmt hp

end Compound

/-- Statements that are read within depths not below what the tokens can use up. -/
theorem settles_stmtWithin : ∀ m, ExprSettles (m + 1) p p' → ∀ n n', m ≤ n → m ≤ n' → ∀ s,
    Settles heads s m (fun _ => 1) (stmtWithin p n) (stmtWithin p' n') := by
  intro m
  induction m generalizing heads with
  | zero => exact fun _ _ _ _ _ _ => .of_no_load (Nat.le_refl 0)
  | succ m ih =>
    intro hp n n' hn hn' s
    obtain ⟨n, rfl⟩ := Nat.exists_eq_add_one_of_ne_zero (show n ≠ 0 by omega)
    obtain ⟨n', rfl⟩ := Nat.exists_eq_add_one_of_ne_zero (show n' ≠ 0 by omega)
    have hp' : ExprSettles (m + 1) p p' := hp.restrict (Nat.le_succ _)
    exact settles_stmtOver (ih hp' n n' (by omega) (by omega)) hp

theorem settles_moduleBody {bound bound' : Nat} (hbound : m < bound) (hbound' : m < bound') :
    Settles heads s m (fun _ => 0) (moduleBody bound) (moduleBody bound') := by
  have hp : ExprSettles (m + 1) (exprParsers bound) (exprParsers bound') :=
    exprSettles (m + 1) bound bound' hbound hbound'
  exact .bounded fun n n' s' hn hn' _ => settles_stmtsUntil
    (settles_stmtWithin m hp bound bound' (Nat.le_of_lt hbound) (Nat.le_of_lt hbound')) .eof n n' s'
    m hn hn' (Nat.le_refl m)

end Parser

end StagedScript.Syntax
