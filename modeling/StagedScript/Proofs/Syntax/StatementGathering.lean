import StagedScript.Proofs.Syntax.ExpressionGathering
import StagedScript.Proofs.Syntax.StatementAgreement

/-!
# Statements take their comments

What is read from tokens has the comments among them, in their order, except that
comments at the gaps of match statements are dropped.
-/

namespace StagedScript.Syntax

open Text

namespace Parser

variable {p : ExprParsers}

/-- The texts are the comments of the statement, with any others at its gaps. -/
def StmtFills (s : Stmt) (texts : List String) : Prop :=
  ∀ place, Fills (s.commentPlaces place) texts

def BlockFills (body : Block) (texts : List String) : Prop :=
  ∀ place position, Fills (blockPlaces place position body) texts

/-- The parser reads a statement that has the comments that it takes. -/
abbrev Keeps (heads : Lexeme → Prop) (x : Parser Stmt) : Prop :=
  Gathers heads x StmtFills

/-- The parser reads a block that has the comments that it takes. -/
abbrev KeepsAll (x : Parser Block) : Prop :=
  Gathers anyHead x BlockFills

theorem StmtFills.simple {s : Stmt} (h : ∀ place, s.commentPlaces place = []) : StmtFills s [] :=
  fun place => h place ▸ .nil

theorem BlockFills.nil : BlockFills [] [] :=
  fun _ _ => .nil

theorem BlockFills.cons {s : Stmt} {stmts : List Stmt} {texts more : List String}
    (h : StmtFills s texts) (hmore : BlockFills stmts more) :
    BlockFills (s :: stmts) (texts ++ more) :=
  fun place position => (h _).append (hmore place (position + 1))

/-! ## Simple statements -/

theorem quiet_optionalExpr {expr : Parser Expr} (hexpr : Quiet expr) :
    Quiet (optionalExpr expr) := by
  refine .peek_bind fun k _ => ?_
  cases startsExpr k with
  | false => exact .pure rfl
  | true => exact hexpr.bind fun _ => .pure rfl

theorem quiet_dottedTail : ∀ n, Quiet (dottedTail n) := by
  intro n
  induction n with
  | zero => exact .throw _
  | succ n ih =>
    exact .acceptSymbol_bind (.identifier_bind fun _ _ => ih.bind fun _ => .pure rfl) (.pure rfl)

theorem quiet_dottedName : Quiet dottedName :=
  .identifier_bind fun _ _ => Quiet.bind (.bounded quiet_dottedTail) fun _ => .pure rfl

theorem quiet_aliasOf {name : Parser String} (hname : Quiet name) : Quiet (aliasOf name) :=
  hname.bind fun _ => .accept_bind rfl (.identifier_bind fun _ _ => .pure rfl) (.pure rfl)

theorem keeps_importModules (span : Span) : Keeps anyHead (importModules span) := by
  have halias : Quiet (aliasOf dottedName) := quiet_aliasOf quiet_dottedName
  refine halias.bind fun first => ?_
  exact Quiet.bind (.bounded (quiet_itemsAfter halias .comma _)) fun _ => .pure (.simple fun _ => rfl)

theorem quiet_leadingDots : ∀ n, Quiet (leadingDots n) := by
  intro n
  induction n with
  | zero => exact .throw _
  | succ n ih => exact .acceptSymbol_bind (ih.bind fun _ => .pure rfl) (.pure rfl)

theorem keeps_importFrom (level : Nat) (module? : Option String) (span : Span) :
    Keeps anyHead (importFrom level module? span) := by
  have halias : Quiet (aliasOf (return (← identifier "imported name").1)) :=
    quiet_aliasOf (.identifier_bind fun _ _ => .pure rfl)
  have hfinish (names : List Alias) : Keeps anyHead
      (if names.isEmpty then unexpected "imported name"
        else return .importNames level module? names span) := by
    split
    · exact .unexpected _
    · exact .pure (.simple fun _ => rfl)
  unfold importFrom
  by_cases hnone : module?.isNone = true ∧ level = 0
  · rw [if_pos hnone]
    exact fun _ _ _ _ _ _ hrun => nomatch hrun
  rw [if_neg hnone]
  refine .expect_bind rfl fun _ => .acceptSymbol_bind ?_ ?_
  · exact (quiet_itemsUntil halias _).bind hfinish
  · refine halias.bind fun first => ?_
    exact Quiet.bind (.bounded (quiet_itemsAfter halias .comma _)) fun others =>
      hfinish (first :: others)

theorem keeps_importNames (span : Span) : Keeps anyHead (importNames span) := by
  rw [importNames_eq]
  refine Quiet.bind (.bounded quiet_leadingDots) fun level => ?_
  refine .isAt_bind (keeps_importFrom level none span).restrict ?_
  exact quiet_dottedName.bind fun name => keeps_importFrom level (some name) span

theorem quiet_checkTarget (e : Expr) : Quiet (checkTarget e) := by
  unfold checkTarget
  split
  · exact .invalid _ _
  · exact .pure rfl

theorem keeps_exprStmt (hp : ExprQuiet p) : Keeps anyHead (exprStmt p) := by
  have hlist : Quiet (exprListOf p.expr) := quiet_exprListOf hp.expr
  refine hlist.bind fun left => .peek_bind fun k _ => ?_
  cases hop : augmentOp? k with
  | some op =>
    have hnone : k.comment? = none := by
      cases k with
      | comment text => nomatch hop
      | _ => rfl
    refine .advance_bind hnone fun _ => (quiet_checkTarget left).bind fun _ => ?_
    exact hlist.bind fun _ => .pure (.simple fun _ => rfl)
  | none =>
    refine .acceptSymbol_bind ?_ (.pure (.simple fun _ => rfl))
    exact (quiet_checkTarget left).bind fun _ => hlist.bind fun _ => .pure (.simple fun _ => rfl)

theorem keeps_simpleStmt (hp : ExprQuiet p) : Keeps anyHead (simpleStmt p) := by
  -- The end of the line adds no comments.
  have hfinish {heads : Lexeme → Prop} {s : Stmt} {texts : List String}
      (h : StmtFills s texts) : Gathers heads (do endOfLine; return s) fun s more =>
        StmtFills s (texts ++ more) :=
    quiet_endOfLine.bind fun _ => .pure (by rwa [List.append_nil])
  have hplain {heads : Lexeme → Prop} {s : Stmt} (h : ∀ place, s.commentPlaces place = []) :
      Keeps heads (do endOfLine; return s) :=
    quiet_endOfLine.bind fun _ => .pure (.simple h)
  refine .peekToken_bind fun k span _ => ?_
  have hexpr : Keeps (· = k) (do
      let stmt ← exprStmt p
      endOfLine
      return stmt) :=
    (keeps_exprStmt hp).restrict.bind fun s texts htexts => hfinish htexts
  cases k with
  | keyword word =>
    cases word with
    | returnKw =>
      refine .advance_bind rfl fun _ => ?_
      exact (quiet_optionalExpr (quiet_exprListOf hp.expr)).bind fun _ => hplain fun _ => rfl
    | raiseKw =>
      exact .advance_bind rfl fun _ => (quiet_optionalExpr hp.expr).bind fun _ => hplain fun _ => rfl
    | importKw =>
      exact .advance_bind rfl fun _ => (keeps_importModules span).bind fun _ _ h => hfinish h
    | fromKw =>
      exact .advance_bind rfl fun _ => (keeps_importNames span).bind fun _ _ h => hfinish h
    | passKw | breakKw | continueKw => exact .advance_bind rfl fun _ => hplain fun _ => rfl
    | _ => exact hexpr
  | _ => exact hexpr

theorem gathers_comments : ∀ n, Gathers anyHead (comments n) fun found texts => texts = found := by
  intro n
  induction n with
  | zero => exact .throw _
  | succ n ih =>
    refine .peek_bind fun k _ => ?_
    cases k with
    | comment text =>
      refine .advance_comment_bind fun _ => ih.bind fun found texts htexts => .pure ?_
      rw [List.append_nil, htexts]
    | _ => exact .pure rfl

section Blocks

variable {stmt : Parser Stmt} (hstmt : Keeps anyHead stmt) (hp : ExprQuiet p)

include hstmt

theorem keepsAll_stmtsUntil (stop : Lexeme) : ∀ n, KeepsAll (stmtsUntil stop stmt n) := by
  intro n
  induction n with
  | zero => exact .throw _
  | succ n ih =>
    refine .peek_bind fun k _ => ?_
    split
    · exact .pure .nil
    split
    · next hnewline =>
      subst hnewline
      exact .advance_bind rfl fun _ => ih
    · refine hstmt.restrict.bind fun first texts htexts => ih.bind fun others more hmore => ?_
      exact .pure (by rw [List.append_nil]; exact .cons htexts hmore)

include hp

theorem keepsAll_suite : KeepsAll (suite p stmt) := by
  refine .accept_bind rfl ?_ ?_
  · refine Gathers.bind (.bounded gathers_comments) fun leading found htexts => ?_
    subst htexts
    refine .expect_bind rfl fun _ => ?_
    refine Gathers.bind (.bounded (keepsAll_stmtsUntil hstmt .dedent)) fun body texts htexts => ?_
    refine .expect_bind rfl fun _ => .pure ?_
    rw [List.append_nil]
    exact fun place position => .comments found (htexts place) position
  · exact (keeps_simpleStmt hp).bind fun s texts htexts => .pure (.cons htexts .nil)

theorem keepsAll_colonSuite : KeepsAll (colonSuite p stmt) :=
  .expectSymbol_bind (keepsAll_suite hstmt hp)

end Blocks

/-! ## Statements with blocks -/

theorem quiet_exprAfter (hp : ExprQuiet p) (sign : Symbol) : Quiet (exprAfter sign p) :=
  .acceptSymbol_bind (hp.expr.bind fun _ => .pure rfl) (.pure rfl)

theorem quiet_paramsAfter (hp : ExprQuiet p) : ∀ n saw, Quiet (paramsAfter p saw n) := by
  intro n
  induction n with
  | zero => exact fun _ => .throw _
  | succ n ih =>
    intro saw
    refine .isAt_bind (.pure rfl) (.identifier_bind fun name span => ?_)
    refine (quiet_exprAfter hp _).bind fun annotation => (quiet_exprAfter hp _).bind fun default => ?_
    split
    · exact .invalid _ _
    · exact .acceptSymbol_bind ((ih _).bind fun _ => .pure rfl) (.pure rfl)

theorem quiet_decorators (hp : ExprQuiet p) : ∀ n, Quiet (decorators p n) := by
  intro n
  induction n with
  | zero => exact .throw _
  | succ n ih =>
    refine .acceptSymbol_bind (hp.expr.bind fun _ => ?_) (.pure rfl)
    exact quiet_endOfLine.bind fun _ => quiet_skipNewlines.bind fun _ => ih.bind fun _ => .pure rfl

theorem quiet_loopTarget (hp : ExprQuiet p) : Quiet (loopTarget p) := by
  refine (quiet_postfixExpr hp).bind fun first => .isAt_bind ?_ (.pure rfl)
  exact Quiet.bind (.bounded (quiet_itemsAfter (quiet_postfixExpr hp) .comma _)) fun _ => .pure rfl

section Compound

variable {stmt : Parser Stmt} (hstmt : Keeps anyHead stmt) (hp : ExprQuiet p)

include hstmt hp

theorem keeps_functionDef : Keeps anyHead (functionDef p stmt) := by
  refine Quiet.bind (.bounded (quiet_decorators hp)) fun decorators => ?_
  refine .expect_bind rfl fun _ => .identifier_bind fun _ _ => .expectSymbol_bind ?_
  refine Quiet.bind (.bounded fun n => quiet_paramsAfter hp n false) fun params => ?_
  refine .expectSymbol_bind ((quiet_exprAfter hp _).bind fun returnType => ?_)
  refine (keepsAll_colonSuite hstmt hp).bind fun body texts htexts => .pure ?_
  rw [List.append_nil]
  exact fun place => htexts (place ++ [0]) 0

theorem keeps_branch : ∀ n word, Keeps (· = .keyword word) (branch p stmt n) := by
  intro n
  induction n with
  | zero => exact fun _ => .throw _
  | succ n ih =>
    intro word
    refine .advance_bind rfl fun span => hp.expr.bind fun condition => ?_
    refine (keepsAll_colonSuite hstmt hp).bind fun thenBlock texts htexts => ?_
    have hplain {heads : Lexeme → Prop} : Gathers heads
        (pure (Stmt.branch condition thenBlock none span) : Parser Stmt) fun s more =>
          StmtFills s (texts ++ more) :=
      .pure fun place => (htexts (place ++ [0]) 0).append .nil
    have hother {block : Block} {more : List String} (hmore : BlockFills block more) :
        StmtFills (.branch condition thenBlock (some block) span) (texts ++ more) :=
      fun place => (htexts (place ++ [0]) 0).append (hmore (place ++ [1]) 0)
    refine .peek_bind fun k _ => ?_
    cases k with
    | keyword word =>
      cases word with
      | elifKw =>
        refine (ih .elifKw).bind fun s more hmore => .pure ?_
        exact hother (.cons hmore .nil)
      | elseKw =>
        refine .advance_bind rfl fun _ => ?_
        refine (keepsAll_colonSuite hstmt hp).bind fun otherwise more hmore => .pure ?_
        rw [List.append_nil]
        exact hother hmore
      | _ => exact hplain
    | _ => exact hplain

/-- Comments before the cases and between them are dropped. -/
theorem gathers_cases : ∀ n, Gathers anyHead (cases p stmt n) fun cases texts =>
    ∀ place number, Fills (none :: casePlaces place number cases) texts := by
  intro n
  induction n with
  | zero => exact .throw _
  | succ n ih =>
    refine .peek_bind fun k _ => ?_
    cases k with
    | dedent | eof => exact .pure fun _ _ => .gap [] .nil
    | newline => exact .advance_bind rfl fun _ => ih
    | comment text =>
      refine .advance_comment_bind fun _ => ih.mono (fun _ _ => trivial) fun _ _ h => ?_
      exact fun place number => (h place number).more [text]
    | keyword word =>
      cases word with
      | caseKw =>
        refine .advance_bind rfl fun _ => (quiet_casePattern hp).bind fun pattern => ?_
        refine (keepsAll_colonSuite hstmt hp).bind fun body texts htexts => ?_
        refine ih.bind fun others more hmore => .pure ?_
        rw [List.append_nil]
        exact fun place number =>
          .gap [] ((htexts (place ++ [number]) 0).append (hmore place (number + 1)))
      | _ => exact .unexpected _
    | _ => exact .unexpected _

theorem keeps_matchOn (span : Span) : Keeps anyHead (matchOn p stmt span) := by
  refine (quiet_exprListOf hp.expr).bind fun subject => .expectSymbol_bind ?_
  refine quiet_endOfLine.bind fun _ => ?_
  refine Gathers.bind (.bounded gathers_comments) fun dropped texts _ => ?_
  refine .expect_bind rfl fun _ => ?_
  refine Gathers.bind (.bounded (gathers_cases hstmt hp)) fun found more hmore => ?_
  refine .expect_bind rfl fun _ => .pure ?_
  rw [List.append_nil]
  exact fun place => (hmore place 0).more texts

theorem keeps_stmtOver : Keeps anyHead (stmtOver p stmt) := by
  refine .peekToken_bind fun k span _ => ?_
  have hsimple : Keeps (· = k) (simpleStmt p) := (keeps_simpleStmt hp).restrict
  cases k with
  | comment text => exact .advance_comment_bind fun _ => .pure fun place => .comment place text .nil
  | symbol sign =>
    cases sign with
    | atSign => exact (keeps_functionDef hstmt hp).restrict
    | _ => exact hsimple
  | keyword word =>
    cases word with
    | defKw => exact (keeps_functionDef hstmt hp).restrict
    | ifKw => exact .bounded fun n => keeps_branch hstmt hp n .ifKw
    | whileKw =>
      refine .advance_bind rfl fun _ => hp.expr.bind fun condition => ?_
      refine (keepsAll_colonSuite hstmt hp).bind fun body texts htexts => .pure ?_
      rw [List.append_nil]
      exact fun place => htexts (place ++ [0]) 0
    | forKw =>
      refine .advance_bind rfl fun _ => (quiet_loopTarget hp).bind fun target => ?_
      refine .expect_bind rfl fun _ => (quiet_exprListOf hp.expr).bind fun iterable => ?_
      refine (keepsAll_colonSuite hstmt hp).bind fun body texts htexts => .pure ?_
      rw [List.append_nil]
      exact fun place => htexts (place ++ [0]) 0
    | matchKw => exact .advance_bind rfl fun _ => keeps_matchOn hstmt hp span
    | _ => exact hsimple
  | _ => exact hsimple

end Compound

theorem keeps_stmtWithin (hp : ExprQuiet p) : ∀ n, Keeps anyHead (stmtWithin p n) := by
  intro n
  induction n with
  | zero => exact .throw _
  | succ n ih => exact keeps_stmtOver ih hp

theorem keepsAll_moduleBody (bound : Nat) : KeepsAll (moduleBody bound) :=
  .bounded (keepsAll_stmtsUntil (keeps_stmtWithin (exprQuiet bound) bound) .eof)

/-- Statements are read up to the end mark, if it is where to stop. -/
theorem stops_stmtsUntil {stmt : Parser Stmt} : ∀ n rounds ts body rest,
    stmtsUntil .eof stmt n rounds ts = .ok (body, rest) → (rest.head?.getD endMark).kind = .eof := by
  intro n
  induction n with
  | zero => exact fun _ _ _ _ hrun => nomatch hrun
  | succ n ih =>
    intro rounds ts body rest hrun
    obtain ⟨kind, _, hkind, hrun⟩ := of_bind_eq_ok hrun
    obtain ⟨rfl, rfl⟩ := Prod.mk.inj (Except.ok.inj hkind)
    split at hrun
    · next hstop =>
      obtain ⟨-, rfl⟩ := Prod.mk.inj (Except.ok.inj hrun)
      exact hstop.elim id id
    split at hrun
    · obtain ⟨_, mid, _, hrun⟩ := of_bind_eq_ok hrun
      exact ih rounds mid body rest hrun
    · obtain ⟨_, mid, _, hrun⟩ := of_bind_eq_ok hrun
      obtain ⟨others, last, hothers, hend⟩ := of_bind_eq_ok hrun
      obtain ⟨-, rfl⟩ := Prod.mk.inj (Except.ok.inj hend)
      exact ih rounds mid others last hothers

end Parser

/-- A module that is read from a text has its comments, except that those at the gaps of match
statements are dropped. -/
theorem comments_of_readModule {source : String} {body : Block} {ts : List Token}
    (hread : readModule source = .ok body) (hts : tokens source = .ok ts) :
    Fills (commentPlaces body) (tokenComments ts) := by
  rw [readModule_of_tokens hts] at hread
  cases hrun : Parser.moduleBody (nestingBound source) (ts.length + 1) ts with
  | error fault =>
    rw [hrun] at hread
    nomatch hread
  | ok out =>
    rw [hrun] at hread
    obtain rfl := Except.ok.inj hread
    have hcomplete : Complete Parser.anyHead ts :=
      (tokens_complete hts).1.mono fun _ _ _ => trivial
    obtain ⟨hrest, texts, htexts, hfills⟩ := Parser.keepsAll_moduleBody (nestingBound source) _ ts
      out.1 out.2 hcomplete (fun _ _ => trivial) hrun
    -- Only the end mark is left, which is no comment.
    have hend : tokenComments out.2 = [] := by
      have hstop := Parser.stops_stmtsUntil _ _ _ _ _ hrun
      revert hrest hstop
      generalize out.2 = rest
      intro hrest hstop
      cases hrest with
      | last span => rfl
      | cons inside _ _ => exact absurd hstop inside
    rw [htexts, hend, List.append_nil]
    exact hfills [] 0

end StagedScript.Syntax
