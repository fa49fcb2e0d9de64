import StagedScript.Proofs.Syntax.LineReading

/-!
# Reading printed statements

The rows of a statement that can be read are read as the statement in its plain
form, and the rows after it are left.  A comment after a statement with a block
would be read as a part of the block, so none may stand there.
-/

namespace StagedScript.Syntax

open Text StagedScript.Syntax.Parser

variable {b level : Nat}

/-! ## Rows that follow -/

/-- The next row is code not deeper than the level, or there is none. -/
def Outside (level : Nat) : List Row → Prop
  | [] => True
  | .code l _ :: _ => l ≤ level
  | .comment _ :: _ => False

/-- The next row is code not deeper than the level that continues no conditional of it, or there is
none. -/
def Follows (level : Nat) : List Row → Prop
  | [] => True
  | .code l ks :: _ =>
    l ≤ level ∧ (l = level → ∀ k ∈ ks.head?, k ≠ .keyword .elifKw ∧ k ≠ .keyword .elseKw)
  | .comment _ :: _ => False

theorem Follows.outside {rows : List Row} (h : Follows level rows) : Outside level rows := by
  match rows, h with
  | [], _ => trivial
  | .code _ _ :: _, h => exact h.1

/-- What is outside of a block follows the statements in it. -/
theorem Outside.follows {rows : List Row} (h : Outside level rows) : Follows (level + 1) rows := by
  match rows, h with
  | [], _ => trivial
  | .code l _ :: _, h =>
    have hle : l ≤ level := h
    exact ⟨Nat.le_succ_of_le hle, fun heq => absurd hle (by omega)⟩

theorem rowKinds_code (level : Nat) (ks : List Lexeme) (rows : List Row) :
    rowKinds level (.code level ks :: rows) = ks ++ .newline :: rowKinds level rows := by
  simp [rowKinds, layoutKinds]

/-- A line that ends with a colon. -/
theorem rowKinds_colon (level : Nat) (k : Lexeme) (ks : List Lexeme) (rows : List Row) :
    rowKinds level (.code level (k :: (ks ++ [.symbol .colon])) :: rows) =
      k :: (ks ++ .symbol .colon :: .newline :: rowKinds level rows) := by
  rw [rowKinds_code]
  simp

theorem rowKinds_open (level : Nat) (ks : List Lexeme) (rows : List Row) :
    rowKinds level (.code (level + 1) ks :: rows) =
      .indent :: rowKinds (level + 1) (.code (level + 1) ks :: rows) := by
  simp [rowKinds, layoutKinds]

/-- A block ends before code outside of it. -/
theorem rowKinds_close {rows : List Row} (h : Outside level rows) :
    rowKinds (level + 1) rows = .dedent :: rowKinds level rows := by
  match rows, h with
  | [], _ => rw [rowKinds, rowKinds, List.replicate_succ, List.cons_append]
  | .code l ks :: rows, h =>
    have hle : l ≤ level := h
    have hnot : ¬ level + 1 < l := by omega
    have hnot' : ¬ level < l := by omega
    have hsub : level + 1 - l = (level - l) + 1 := by omega
    simp only [rowKinds, layoutKinds, if_neg hnot, if_neg hnot', hsub, List.replicate_succ,
      List.cons_append]

theorem rowKinds_ne_nil (level : Nat) (rows : List Row) : rowKinds level rows ≠ [] := by
  cases rows with
  | nil => simp [rowKinds]
  | cons row rows => cases row <;> simp [rowKinds]

theorem tokens_ne_nil {rows : List Row} {ts : List Token}
    (hts : ts.map Token.kind = rowKinds level rows) : ts ≠ [] := by
  rintro rfl
  exact rowKinds_ne_nil level rows hts.symm

/-- A conditional does not go on with what follows it. -/
theorem Follows.head {rows : List Row} (h : Follows level rows) : ∃ k ks,
    rowKinds level rows = k :: ks ∧ k ≠ .keyword .elifKw ∧ k ≠ .keyword .elseKw := by
  match rows, h with
  | [], _ => cases level <;> exact ⟨_, _, rfl, by decide⟩
  | .code l ks :: rows, ⟨hle, hks⟩ =>
    rw [rowKinds, layoutKinds, if_neg (Nat.not_lt.mpr hle)]
    by_cases heq : l = level
    · subst heq
      rw [Nat.sub_self, List.replicate_zero, List.nil_append]
      cases ks with
      | nil => exact ⟨_, _, rfl, by decide⟩
      | cons k ks => exact ⟨_, _, rfl, hks rfl k rfl⟩
    · obtain ⟨j, hj⟩ := Nat.exists_eq_add_one_of_ne_zero (show level - l ≠ 0 by omega)
      rw [hj, List.replicate_succ]
      exact ⟨_, _, rfl, by decide⟩

def Lexeme.opensStmt : Lexeme → Bool
  | .indent | .dedent | .newline | .eof | .comment _ => false
  | .keyword word => word ∉ [Keyword.elifKw, .elseKw]
  | _ => true

theorem opensStmt_of_startsExpr {k : Lexeme} (h : startsExpr k = true) : k.opensStmt = true := by
  match k, h with
  | .identifier _, _ | .integer _, _ | .float _, _ | .string _, _ | .formatted _, _
  | .symbol _, _ => rfl
  | .keyword word, h => cases word <;> first | exact absurd h (by decide) | rfl

theorem Stmt.rows_head (s : Stmt) (hs : s.isComment = false) (level : Nat) :
    ∃ k ks rows, s.rows level .ifKw = .code level (k :: ks) :: rows ∧ k.opensStmt = true := by
  match s, hs with
  | .function header body, _ =>
    rw [Stmt.rows, FunctionHeader.rows]
    cases header.decorators with
    | nil => exact ⟨_, _, _, rfl, rfl⟩
    | cons d ds => exact ⟨_, _, _, rfl, rfl⟩
  | .branch _ _ none _, _ | .branch _ _ (some _) _, _ =>
    rw [Stmt.rows]
    exact ⟨_, _, _, rfl, rfl⟩
  | .whileLoop _ _ _, _ | .forLoop _ _ _ _, _ | .matchOn _ _ _, _ | .importModules _ _, _
  | .importNames _ _ _ _, _ | .pass, _ | .breakLoop, _ | .continueLoop, _ =>
    exact ⟨_, _, _, rfl, rfl⟩
  | .returnValue value _, _ | .raise value _, _ =>
    rw [Stmt.rows, keywordLexemes_eq]
    exact ⟨_, _, _, rfl, rfl⟩
  | .assign target _ _, _ | .augment _ target _ _, _ | .expr target, _ =>
    obtain ⟨k, ks, hks, hk⟩ := opensWith_lexemes 0 target
    rw [Stmt.rows, hks]
    exact ⟨_, _, _, rfl, opensStmt_of_startsExpr hk.starts⟩

theorem follows_code {k : Lexeme} (hk : k.opensStmt = true) (ks : List Lexeme) (rows : List Row) :
    Follows level (.code level (k :: ks) :: rows) := by
  refine ⟨Nat.le_refl _, fun _ k' hk' => ?_⟩
  obtain rfl : k' = k := (Option.some.inj hk').symm
  constructor <;> rintro rfl <;> exact absurd hk (by decide)

/-- The statements of a block follow each other, unless the next one is a comment. -/
theorem follows_block {stmts : List Stmt} (h : startsWithComment stmts = false) {more : List Row}
    (hmore : Follows level more) : Follows level (blockRows level .ifKw stmts ++ more) := by
  match stmts, h with
  | [], _ => exact hmore
  | s :: stmts, h =>
    obtain ⟨k, ks, rows, hrows, hk⟩ := s.rows_head h level
    rw [blockRows, hrows]
    exact follows_code hk _ _

/-- The first lexeme of a statement ends neither a line nor a block. -/
theorem Stmt.kinds_head (s : Stmt) (level : Nat) (more : List Row) :
    ∃ k ks, rowKinds level (s.rows level .ifKw ++ more) = k :: ks ∧ k ≠ .newline ∧ k ≠ .dedent ∧
      k ≠ .eof := by
  by_cases hs : s.isComment = true
  · match s, hs with
    | .comment text, _ =>
      exact ⟨_, _, rfl, Lexeme.noConfusion, Lexeme.noConfusion, Lexeme.noConfusion⟩
  · obtain ⟨k, ks, rows, hrows, hk⟩ := s.rows_head (Bool.eq_false_iff.mpr hs) level
    rw [hrows, List.cons_append, rowKinds_code]
    refine ⟨k, _, rfl, ?_, ?_, ?_⟩ <;> rintro rfl <;> exact Bool.noConfusion hk

theorem outside_cases (cases : List Case) {more : List Row} (h : Outside level more) :
    Outside level (caseRows level cases ++ more) := by
  rcases cases with _ | ⟨⟨pattern, body⟩, cases⟩
  · exact h
  · exact Nat.le_refl level

def Row.weight : Row → Nat
  | .code _ ks => Syntax.weight ks
  | .comment _ => 0

def Within (b : Nat) (rows : List Row) : Prop :=
  ∀ row ∈ rows, row.weight ≤ b

theorem Within.tail {row : Row} {rows : List Row} (h : Within b (row :: rows)) : Within b rows :=
  fun row' hrow => h row' (List.mem_cons_of_mem _ hrow)

theorem Within.head {l : Nat} {ks : List Lexeme} {rows : List Row}
    (h : Within b (.code l ks :: rows)) : weight ks ≤ b :=
  h _ List.mem_cons_self

theorem Within.left {rows rows' : List Row} (h : Within b (rows ++ rows')) : Within b rows :=
  fun row hrow => h row (List.mem_append_left _ hrow)

theorem Within.right {rows rows' : List Row} (h : Within b (rows ++ rows')) : Within b rows' :=
  fun row hrow => h row (List.mem_append_right _ hrow)

/-- Some tokens were taken, and those of the rows are left. -/
structure Leaves (level : Nat) (more : List Row) (ts rest : List Token) : Prop where
  kinds : rest.map Token.kind = rowKinds level more
  shorter : rest.length < ts.length

/-- The statement is read from its rows; if it has a block, then only before rows that follow it. -/
def StmtReads (b : Nat) (s : Stmt) : Prop :=
  ∀ d n level ts more, Within b (s.rows level .ifKw) → (s.hasBlock = true → Follows level more) →
    ts.map Token.kind = rowKinds level (s.rows level .ifKw ++ more) →
      ts.length < n → ts.length < d →
        ∃ s' rest, Reads (stmtWithin (exprParsers (b + 1)) d) n ts s' rest ∧
          Leaves level more ts rest ∧ s'.strip .bare = s.strip .plain

/-- A statement that starts with the lexeme is not a simple one. -/
def Lexeme.opensBlock : Lexeme → Bool
  | .comment _ | .symbol .atSign | .keyword .defKw | .keyword .ifKw | .keyword .whileKw
  | .keyword .forKw | .keyword .matchKw => true
  | _ => false

theorem opensBlock_of_startsExpr {k : Lexeme} (h : startsExpr k = true) :
    k.opensBlock = false := by
  match k, h with
  | .identifier _, _ | .integer _, _ | .float _, _ | .string _, _ | .formatted _, _ => rfl
  | .symbol sign, h => cases sign <;> first | exact absurd h (by decide) | rfl
  | .keyword word, h => cases word <;> first | exact absurd h (by decide) | rfl

theorem stmtOver_simple {p : ExprParsers} {stmt : Parser Stmt} {n : Nat} {t : Token}
    {ts : List Token} (h : t.kind.opensBlock = false) :
    stmtOver p stmt n (t :: ts) = simpleStmt p n (t :: ts) := by
  obtain ⟨kind, span⟩ := t
  replace h : kind.opensBlock = false := h
  match kind, h with
  | .identifier _, _ | .integer _, _ | .float _, _ | .string _, _ | .formatted _, _
  | .indent, _ | .dedent, _ | .newline, _ | .eof, _ => rfl
  | .symbol sign, h => cases sign <;> first | exact absurd h (by decide) | rfl
  | .keyword word, h => cases word <;> first | exact absurd h (by decide) | rfl

theorem stmtReads_line {s : Stmt} {ks : List Lexeme}
    (hrows : ∀ level, s.rows level .ifKw = [.code level ks])
    (hks : ∃ k ∈ ks.head?, k.opensBlock = false)
    (h : weight ks ≤ b → LineReads (exprParsers (b + 1)) s ks) : StmtReads b s := by
  intro d n level ts more hb _ hts hn hd
  rw [hrows] at hb hts
  obtain ⟨d, rfl⟩ := Nat.exists_eq_add_one_of_ne_zero (show d ≠ 0 by omega)
  have hkinds : ts.map Token.kind = (ks ++ [.newline]) ++ rowKinds level more := by
    rw [hts, List.singleton_append, rowKinds_code]
    simp
  obtain ⟨us, vs, rfl, hus, hvs⟩ := split_tokens hkinds
  have hstop : Stops (fun _ => True) vs := by
    obtain ⟨v, vs, rfl⟩ := List.exists_cons_of_ne_nil (tokens_ne_nil hvs)
    exact ⟨v, vs, rfl, trivial⟩
  rw [List.length_append] at hn
  obtain ⟨s', hread, hs'⟩ := h hb.head n us vs hus (by omega) hstop
  obtain ⟨k, hhead, hk⟩ := hks
  obtain ⟨ks', rfl⟩ := List.head?_eq_some_iff.mp hhead
  obtain ⟨u, us, rfl, hu, -⟩ := cons_tokens hus
  have hshort : vs.length < (u :: us ++ vs).length := by
    rw [List.length_append, List.length_cons]
    omega
  refine ⟨s', vs, ?_, ⟨hvs, hshort⟩, hs'⟩
  have hopens : u.kind.opensBlock = false := by
    rw [hu]
    exact hk
  show stmtOver _ _ n (u :: (us ++ vs)) = _
  rw [stmtOver_simple hopens]
  exact hread

theorem stmtReads_comment {text : String} (htext : IsCommentText text) :
    StmtReads b (.comment text) := by
  intro d n level ts more _ _ hts hn hd
  obtain ⟨d, rfl⟩ := Nat.exists_eq_add_one_of_ne_zero (show d ≠ 0 by omega)
  have hkinds : ts.map Token.kind = .comment (trimEnd text) :: rowKinds level more := hts
  rw [htext.2] at hkinds
  obtain ⟨⟨kind, span⟩, us, rfl, rfl, hus⟩ := cons_tokens hkinds
  refine ⟨.comment text, us, ?_, ⟨hus, Nat.lt_succ_self _⟩, rfl⟩
  exact Reads.bind Reads.peekToken (Reads.bind (Reads.advance (tokens_ne_nil hus)) (Reads.pure _))

/-! ## Blocks -/

/-- Statements with the given plain forms are read from the rows up to the end of their block. -/
def BlockRuns (b : Nat) (rows : Nat → List Row) (plain : Block) : Prop :=
  ∀ stop level more, stop = .dedent ∨ stop = .eof → Within b (rows level) → Follows level more →
    (∃ ks, rowKinds level more = stop :: ks) → ∀ d m n ts,
      ts.map Token.kind = rowKinds level (rows level ++ more) →
        ts.length < d → ts.length < m → ts.length < n → ∃ body' rest,
          Reads (stmtsUntil stop (stmtWithin (exprParsers (b + 1)) d) m) n ts body' rest ∧
            rest.map Token.kind = rowKinds level more ∧ rest.length ≤ ts.length ∧
            stripStmts .bare body' = plain

theorem blockRuns_nil : BlockRuns b (fun _ => []) [] := by
  rintro stop level more - - - ⟨ks, hend⟩ d m n ts hts hd hm hn
  have hkinds : ts.map Token.kind = stop :: ks := hts.trans hend
  obtain ⟨t, us, rfl, ht, hus⟩ := cons_tokens hkinds
  obtain ⟨m, rfl⟩ := Nat.exists_eq_add_one_of_ne_zero (show m ≠ 0 by omega)
  refine ⟨[], t :: us, ?_, hts, Nat.le_refl _, rfl⟩
  refine Reads.bind Reads.peek ?_
  rw [if_pos (Or.inl ht)]
  exact Reads.pure []

theorem BlockRuns.cons {s : Stmt} {rows : Nat → List Row} {plain : Block} (hs : StmtReads b s)
    (hrows : s.hasBlock = true →
      ∀ level more, Follows level more → Follows level (rows level ++ more))
    (h : BlockRuns b rows plain) :
    BlockRuns b (fun level => s.rows level .ifKw ++ rows level) (s.strip .plain :: plain) := by
  intro stop level more hstop hb hmore hend d m n ts hts hd hm hn
  obtain ⟨m, rfl⟩ := Nat.exists_eq_add_one_of_ne_zero (show m ≠ 0 by omega)
  rw [List.append_assoc] at hts
  obtain ⟨s', mid, hread, ⟨hmid, hshort⟩, hs'⟩ :=
    hs d n level ts _ hb.left (fun hblock => hrows hblock level more hmore) hts (by omega) hd
  obtain ⟨body', rest, hreads, hrest, hlength, hbody⟩ :=
    h stop level more hstop hb.right hmore hend d m n mid hmid (by omega) (by omega) (by omega)
  obtain ⟨k, ks, hfirst, hline, hdedent, heof⟩ := s.kinds_head level (rows level ++ more)
  rw [hfirst] at hts
  obtain ⟨t, us, rfl, rfl, -⟩ := cons_tokens hts
  have hnot : ¬ (t.kind = stop ∨ t.kind = .eof) := by
    rintro (hk | hk)
    · rcases hstop with rfl | rfl
      · exact hdedent hk
      · exact heof hk
    · exact heof hk
  refine ⟨s' :: body', rest, ?_, hrest, by omega, congrArg₂ List.cons hs' hbody⟩
  refine Reads.bind Reads.peek ?_
  rw [if_neg hnot, if_neg hline]
  exact Reads.bind hread (Reads.bind hreads (Reads.pure _))

/-- The comments before a token that is none. -/
theorem reads_comments {texts : List String} {t : Token} (ht : ∀ text, t.kind ≠ .comment text)
    (us : List Token) {n : Nat} : ∀ {m cs}, cs.map Token.kind = texts.map Lexeme.comment →
      texts.length < m → Reads (Parser.comments m) n (cs ++ t :: us) texts (t :: us) := by
  induction texts with
  | nil =>
    intro m cs hcs hm
    obtain ⟨m, rfl⟩ := Nat.exists_eq_add_one_of_ne_zero (show m ≠ 0 by omega)
    obtain rfl : cs = [] := List.map_eq_nil_iff.mp hcs
    refine Reads.bind Reads.peek ?_
    split
    · next text heq => exact absurd heq (ht text)
    · exact Reads.pure []
  | cons text texts ih =>
    intro m cs hcs hm
    rw [List.length_cons] at hm
    obtain ⟨m, rfl⟩ := Nat.exists_eq_add_one_of_ne_zero (show m ≠ 0 by omega)
    obtain ⟨⟨kind, span⟩, cs, rfl, rfl, hothers⟩ := cons_tokens hcs
    refine Reads.bind Reads.peek (Reads.bind (Reads.advance (by simp)) ?_)
    exact Reads.bind (ih hothers (by omega)) (Reads.pure _)

/-- The block consists of the comments that it starts with and of what is read from the given rows,
of which the first is code. -/
structure StartsWith (b : Nat) (body : List Stmt) (texts : List String) (rows : Nat → List Row)
    (plain : Block) : Prop where
  split : ∀ level, bodyRows level body = texts.map .comment ++ rows level
  code : ∀ level, ∃ ks more, rows level = .code level ks :: more
  runs : BlockRuns b rows plain
  plain : stripBlock .plain body = texts.map .comment ++ plain

def BodyReads (b : Nat) (body : List Stmt) : Prop :=
  ∃ texts rows plain, StartsWith b body texts rows plain

theorem bodyRows_of_ne_nil {body : List Stmt} (h : body ≠ []) (level : Nat) :
    bodyRows level body = blockRows level .ifKw body := by
  obtain ⟨s, stmts, rfl⟩ := List.exists_cons_of_ne_nil h
  rfl

theorem stripBlock_of_ne_nil {body : List Stmt} (h : body ≠ []) (o : Outline) :
    stripBlock o body = stripStmts o body := by
  obtain ⟨s, stmts, rfl⟩ := List.exists_cons_of_ne_nil h
  rfl

/-- One more comment in front of a block. -/
theorem StartsWith.comment {body : List Stmt} {texts : List String} {rows : Nat → List Row}
    {plain : Block} {text : String} (htext : IsCommentText text) (hne : body ≠ [])
    (h : StartsWith b body texts rows plain) :
    StartsWith b (.comment text :: body) (text :: texts) rows plain where
  split level := by
    rw [bodyRows, ← bodyRows_of_ne_nil hne, h.split, Stmt.rows, htext.2]
    rfl
  code := h.code
  runs := h.runs
  plain := by
    rw [stripBlock, ← stripBlock_of_ne_nil hne, h.plain]
    rfl

theorem rowKinds_comments (level : Nat) (texts : List String) (rows : List Row) :
    rowKinds level (texts.map .comment ++ rows) = texts.map .comment ++ rowKinds level rows := by
  induction texts with
  | nil => rfl
  | cons text texts ih => exact congrArg (List.cons _) ih

theorem stripStmts_append (o : Outline) (stmts stmts' : List Stmt) :
    stripStmts o (stmts ++ stmts') = stripStmts o stmts ++ stripStmts o stmts' := by
  induction stmts with
  | nil => rfl
  | cons s stmts ih => exact congrArg (List.cons _) ih

theorem stripStmts_comments (o : Outline) (texts : List String) :
    stripStmts o (texts.map .comment) = texts.map .comment := by
  induction texts with
  | nil => rfl
  | cons text texts ih => exact congrArg (List.cons _) ih

/-- A colon and an indented block. -/
theorem BodyReads.suite {body : List Stmt} (h : BodyReads b body) {more : List Row}
    (hb : Within b (bodyRows (level + 1) body)) (houtside : Outside level more) {d n : Nat}
    {ts : List Token} (hts : ts.map Token.kind =
      .symbol .colon :: .newline :: rowKinds level (bodyRows (level + 1) body ++ more))
    (hd : ts.length < d) (hn : ts.length < n) :
    ∃ body' rest, Reads (colonSuite (exprParsers (b + 1)) (stmtWithin (exprParsers (b + 1)) d)) n ts
        body' rest ∧
      rest.map Token.kind = rowKinds level more ∧ rest.length < ts.length ∧
      stripBlock .bare body' = stripBlock .plain body := by
  obtain ⟨texts, rows, plain, hopens⟩ := h
  obtain ⟨ks, others, hcode⟩ := hopens.code (level + 1)
  have hopen : rowKinds level (bodyRows (level + 1) body ++ more) =
      texts.map Lexeme.comment ++ .indent :: rowKinds (level + 1) (rows (level + 1) ++ more) := by
    rw [hopens.split, List.append_assoc, rowKinds_comments, hcode, List.cons_append, rowKinds_open]
  rw [hopen] at hts
  obtain ⟨c, us, rfl, hc, hus⟩ := cons_tokens hts
  obtain ⟨l, vs, rfl, hl, hvs⟩ := cons_tokens hus
  obtain ⟨cs, vs, rfl, hcs, hvs'⟩ := split_tokens hvs
  obtain ⟨i, ws, rfl, hi, hws⟩ := cons_tokens hvs'
  simp only [List.length_cons, List.length_append] at hd hn
  have hmany : cs.length = texts.length := by simpa using congrArg List.length hcs
  have hcomments : Reads (Parser.comments n) n (cs ++ i :: ws) texts (i :: ws) :=
    reads_comments (by rw [hi]; exact fun _ => Lexeme.noConfusion) ws hcs (by omega)
  rw [hopens.split] at hb
  obtain ⟨body', mid, hread, hmid, hlength, hbody⟩ :=
    hopens.runs .dedent (level + 1) more (.inl rfl) hb.right houtside.follows
      ⟨_, rowKinds_close houtside⟩ d n n ws hws (by omega) (by omega) (by omega)
  rw [rowKinds_close houtside] at hmid
  obtain ⟨e, rest, rfl, he, hrest⟩ := cons_tokens hmid
  rw [List.length_cons] at hlength
  refine ⟨texts.map .comment ++ body', rest, ?_, hrest, ?_, ?_⟩
  · refine Reads.bind (Reads.expectSymbol hc (by simp)) ?_
    refine Reads.bind (Reads.accept_true hl (by simp)) ?_
    refine Reads.bind (Reads.bounded hcomments) ?_
    refine Reads.bind (Reads.expect hi (tokens_ne_nil hws) _) (Reads.bind (Reads.bounded hread) ?_)
    exact Reads.bind (Reads.expect he (tokens_ne_nil hrest) _) (Reads.pure _)
  · simp only [List.length_cons, List.length_append]
    omega
  · rw [stripBlock_bare, stripStmts_append, stripStmts_comments, hbody, hopens.plain]

/-- The cases are read from their rows up to the end of the block. -/
def CasesRun (b : Nat) (cases : List Case) : Prop :=
  ∀ level more, Within b (caseRows (level + 1) cases) → Outside level more → ∀ d m n ts,
    ts.map Token.kind = rowKinds (level + 1) (caseRows (level + 1) cases ++ more) →
      ts.length < d → ts.length < m → ts.length < n → ∃ cases' rest,
        Reads (Parser.cases (exprParsers (b + 1)) (stmtWithin (exprParsers (b + 1)) d) m) n ts cases'
            rest ∧
          rest.map Token.kind = rowKinds (level + 1) more ∧ rest.length ≤ ts.length ∧
          stripCases .bare cases' = stripCases .plain cases

theorem casesRun_nil : CasesRun b [] := by
  intro level more _ houtside d m n ts hts hd hm hn
  have hkinds : ts.map Token.kind = .dedent :: rowKinds level more :=
    hts.trans (rowKinds_close houtside)
  obtain ⟨t, us, rfl, ht, hus⟩ := cons_tokens hkinds
  obtain ⟨m, rfl⟩ := Nat.exists_eq_add_one_of_ne_zero (show m ≠ 0 by omega)
  refine ⟨[], t :: us, ?_, hts, Nat.le_refl _, rfl⟩
  refine Reads.bind Reads.peek ?_
  rw [ht]
  exact Reads.pure []

theorem CasesRun.cons {pattern : Pattern} {body : List Stmt} {cases : List Case}
    (hpattern : pattern.Holds Constant.LegiblePattern) (hbody : BodyReads b body)
    (h : CasesRun b cases) : CasesRun b (.on pattern body :: cases) := by
  intro level more hb houtside d m n ts hts hd hm hn
  rw [caseRows, List.cons_append, List.append_assoc, rowKinds_colon] at hts
  rw [caseRows] at hb
  obtain ⟨t, us, rfl, ht, hus⟩ := cons_tokens hts
  obtain ⟨ps, vs, rfl, hps, hvs⟩ := split_tokens hus
  obtain ⟨v, vs, rfl, hv, hvs'⟩ := cons_tokens hvs
  obtain ⟨m, rfl⟩ := Nat.exists_eq_add_one_of_ne_zero (show m ≠ 0 by omega)
  simp only [List.length_cons, List.length_append] at hd hm hn
  obtain ⟨pattern', hread, hpattern'⟩ := takes_casePattern hpattern n ps (v :: vs) hps (by omega)
    (stops_cons hv (by decide))
  have hnext : Outside (level + 1) (caseRows (level + 1) cases ++ more) :=
    outside_cases cases houtside.follows.outside
  obtain ⟨body', mid, hreadBody, hmid, hshort, hbody'⟩ := hbody.suite hb.tail.left hnext (d := d)
    (n := n) hvs (by rw [List.length_cons]; omega) (by rw [List.length_cons]; omega)
  rw [List.length_cons] at hshort
  obtain ⟨cases', rest, hreads, hrest, hlength, hcases⟩ :=
    h level more hb.tail.right houtside d m n mid hmid (by omega) (by omega) (by omega)
  refine ⟨.on pattern' body' :: cases', rest, ?_, hrest, ?_, ?_⟩
  · refine Reads.bind Reads.peek ?_
    rw [ht]
    refine Reads.bind (Reads.advance (by simp)) (Reads.bind hread (Reads.bind hreadBody ?_))
    exact Reads.bind hreads (Reads.pure _)
  · simp only [List.length_cons, List.length_append]
    omega
  · exact congrArg₂ List.cons (congrArg₂ Case.on hpattern' hbody') hcases

/-! ## Statements with blocks -/

section Bodies

variable {body : List Stmt}

theorem stmtReads_while {condition : Expr} (hcondition : Readable condition)
    (hbody : BodyReads b body) (span : Span) : StmtReads b (.whileLoop condition body span) := by
  intro d n level ts more hb hmore hts hn hd
  replace hmore := hmore rfl
  rw [Stmt.rows, List.cons_append, rowKinds_colon] at hts
  rw [Stmt.rows] at hb
  obtain ⟨d, rfl⟩ := Nat.exists_eq_add_one_of_ne_zero (show d ≠ 0 by omega)
  obtain ⟨⟨kind, place⟩, us, rfl, rfl, hus⟩ := cons_tokens hts
  obtain ⟨cs, vs, rfl, hcs, hvs⟩ := split_tokens hus
  obtain ⟨v, vs, rfl, hv, hvs'⟩ := cons_tokens hvs
  simp only [List.length_cons, List.length_append] at hd hn
  have hweight := hb.head
  rw [weight_cons, weight_append] at hweight
  obtain ⟨condition', hread, hcondition'⟩ := hcondition.takes_expr (d := b) (by omega) n cs
    (v :: vs) hcs (by omega) (stops_cons hv (by decide))
  obtain ⟨body', rest, hreads, hrest, hshort, hbody'⟩ := hbody.suite hb.tail hmore.outside (d := d)
    (n := n) hvs (by rw [List.length_cons]; omega) (by rw [List.length_cons]; omega)
  rw [List.length_cons] at hshort
  refine ⟨.whileLoop condition' body' place, rest, ?_, ⟨hrest, ?_⟩, ?_⟩
  · refine Reads.bind Reads.peekToken (Reads.bind (Reads.advance (by simp)) ?_)
    exact Reads.bind hread (Reads.bind hreads (Reads.pure _))
  · simp only [List.length_cons, List.length_append]
    omega
  · exact congrArg₂ (Stmt.whileLoop · · .synthetic) hcondition' hbody'

theorem stmtReads_for {target iterable : Expr} (htarget : Readable target)
    (hatom : target.strength = Strength.atom) (hiterable : Readable iterable)
    (hbody : BodyReads b body) (span : Span) :
    StmtReads b (.forLoop target iterable body span) := by
  intro d n level ts more hb hmore hts hn hd
  replace hmore := hmore rfl
  have hline : Lexeme.keyword .forKw :: (target.lexemes 0 ++ .keyword .inKw
      :: (iterable.lexemes 0 ++ [.symbol .colon])) = .keyword .forKw :: ((target.lexemes 0
      ++ .keyword .inKw :: iterable.lexemes 0) ++ [.symbol .colon]) := by simp
  rw [Stmt.rows, hline, List.cons_append, rowKinds_colon] at hts
  rw [Stmt.rows, hline] at hb
  obtain ⟨d, rfl⟩ := Nat.exists_eq_add_one_of_ne_zero (show d ≠ 0 by omega)
  obtain ⟨⟨kind, place⟩, us, rfl, rfl, hus⟩ := cons_tokens hts
  obtain ⟨cs, vs, rfl, hcs, hvs⟩ := split_tokens hus
  obtain ⟨xs, ys, rfl, hxs, hys⟩ := split_tokens hcs
  obtain ⟨y, ys, rfl, hy, hys'⟩ := cons_tokens hys
  obtain ⟨v, vs, rfl, hv, hvs'⟩ := cons_tokens hvs
  simp only [List.length_cons, List.length_append] at hd hn
  have hweight := hb.head
  simp only [weight_cons, weight_append] at hweight
  obtain ⟨target', hread, htarget'⟩ := takes_loopTarget htarget hatom (b := b + 1) (by omega) n xs
    (y :: (ys ++ v :: vs)) hxs (by omega) (stops_cons hy rfl)
  obtain ⟨iterable', hreadIn, hiterable'⟩ := takes_exprList (· = .symbol .colon) hiterable (b := b)
    (by omega) (by rintro k rfl; decide) n ys (v :: vs) hys' (by omega) (stops_cons hv rfl)
  obtain ⟨body', rest, hreads, hrest, hshort, hbody'⟩ := hbody.suite hb.tail hmore.outside (d := d)
    (n := n) hvs (by rw [List.length_cons]; omega) (by rw [List.length_cons]; omega)
  rw [List.length_cons] at hshort
  refine ⟨.forLoop target' iterable' body' place, rest, ?_, ⟨hrest, ?_⟩, ?_⟩
  · refine Reads.bind Reads.peekToken (Reads.bind (Reads.advance (by simp)) ?_)
    rw [List.append_assoc, List.cons_append]
    refine Reads.bind hread (Reads.bind (Reads.expect hy (by simp) _) ?_)
    exact Reads.bind hreadIn (Reads.bind hreads (Reads.pure _))
  · simp only [List.length_cons, List.length_append]
    omega
  · have hheads := congrArg₂ Prod.mk htarget' hiterable'
    exact congrArg₂ (fun (heads : Expr × Expr) b =>
      Stmt.forLoop heads.1 heads.2 b .synthetic) hheads hbody'

theorem stmtReads_match {subject : Expr} {cases : List Case} (hsubject : Readable subject)
    (hne : cases ≠ []) (hcases : CasesRun b cases) (span : Span) :
    StmtReads b (.matchOn subject cases span) := by
  intro d n level ts more hb hmore hts hn hd
  replace hmore := hmore rfl
  rw [Stmt.rows, List.cons_append, rowKinds_colon] at hts
  rw [Stmt.rows] at hb
  obtain ⟨d, rfl⟩ := Nat.exists_eq_add_one_of_ne_zero (show d ≠ 0 by omega)
  obtain ⟨⟨kind, place⟩, us, rfl, rfl, hus⟩ := cons_tokens hts
  obtain ⟨cs, vs, rfl, hcs, hvs⟩ := split_tokens hus
  obtain ⟨v, vs, rfl, hv, hvs'⟩ := cons_tokens hvs
  obtain ⟨l, ws, rfl, hl, hws⟩ := cons_tokens hvs'
  have hopen : rowKinds level (caseRows (level + 1) cases ++ more) =
      .indent :: rowKinds (level + 1) (caseRows (level + 1) cases ++ more) := by
    obtain ⟨⟨pattern, body⟩, others, rfl⟩ := List.exists_cons_of_ne_nil hne
    rw [caseRows, List.cons_append, rowKinds_open]
  rw [hopen] at hws
  obtain ⟨i, ws, rfl, hi, hws'⟩ := cons_tokens hws
  simp only [List.length_cons, List.length_append] at hd hn
  have hweight := hb.head
  rw [weight_cons, weight_append] at hweight
  obtain ⟨subject', hread, hsubject'⟩ := takes_exprList (· = .symbol .colon) hsubject (b := b)
    (by omega) (by rintro k rfl; decide) n cs (v :: l :: i :: ws) hcs (by omega) (stops_cons hv rfl)
  obtain ⟨cases', mid, hreads, hmid, hshort, hcases'⟩ :=
    hcases level more hb.tail hmore.outside d n n ws hws' (by omega) (by omega) (by omega)
  rw [rowKinds_close hmore.outside] at hmid
  obtain ⟨e, rest, rfl, he, hrest⟩ := cons_tokens hmid
  rw [List.length_cons] at hshort
  have hcomments : Reads (Parser.comments n) n (i :: ws) [] (i :: ws) :=
    reads_comments (by rw [hi]; exact fun _ => Lexeme.noConfusion) ws
      (show ([] : List Token).map Token.kind = ([] : List String).map Lexeme.comment from rfl)
      (by simp; omega)
  refine ⟨.matchOn subject' cases' place, rest, ?_, ⟨hrest, ?_⟩, ?_⟩
  · refine Reads.bind Reads.peekToken (Reads.bind (Reads.advance (by simp)) ?_)
    refine Reads.bind hread (Reads.bind (Reads.expectSymbol hv (by simp)) ?_)
    refine Reads.bind (endOfLine_reads hl (by simp)) ?_
    refine Reads.bind (Reads.bounded hcomments) ?_
    refine Reads.bind (Reads.expect hi (tokens_ne_nil hws') _) (Reads.bind (Reads.bounded hreads) ?_)
    exact Reads.bind (Reads.expect he (tokens_ne_nil hrest) _) (Reads.pure _)
  · simp only [List.length_cons, List.length_append]
    omega
  · exact congrArg₂ (Stmt.matchOn · · .synthetic) hsubject' hcases'

theorem length_le_separated {kss : List (List Lexeme)} (h : ∀ ks ∈ kss, ks ≠ []) :
    kss.length ≤ (separated kss).length := by
  cases kss with
  | nil => exact Nat.zero_le _
  | cons ks kss =>
    have hpos := List.length_pos_iff.mpr (h ks List.mem_cons_self)
    have hothers := length_le_preceded .comma kss
    rw [separated_cons, List.length_append, List.length_cons]
    omega

theorem length_le_decoratorLexemes (ds : List Expr) : ds.length ≤ (decoratorLexemes ds).length := by
  induction ds with
  | nil => exact Nat.le_refl _
  | cons d ds ih =>
    rw [decoratorLexemes, List.flatMap_cons, List.length_append, List.length_cons, List.length_cons]
    exact Nat.le_trans (Nat.succ_le_succ ih) (by rw [decoratorLexemes]; omega)

theorem rowKinds_header (level : Nat) (h : FunctionHeader) (rows : List Row) :
    rowKinds level (h.rows level ++ rows) =
      decoratorLexemes h.decorators ++ (h.lexemes ++ .newline :: rowKinds level rows) := by
  rw [FunctionHeader.rows, List.append_assoc]
  induction h.decorators with
  | nil => exact rowKinds_code level h.lexemes rows
  | cons d ds ih =>
    rw [List.map_cons, List.cons_append, rowKinds_code, ih]
    simp [decoratorLexemes]

theorem stmtOver_function {p : ExprParsers} {stmt : Parser Stmt} {n : Nat} {t : Token}
    {ts : List Token} (h : t.kind = .symbol .atSign ∨ t.kind = .keyword .defKw) :
    stmtOver p stmt n (t :: ts) = functionDef p stmt n (t :: ts) := by
  obtain ⟨kind, span⟩ := t
  rcases h with h | h
  · obtain rfl : kind = .symbol .atSign := h
    rfl
  · obtain rfl : kind = .keyword .defKw := h
    rfl

/-- The parts of the line of a function are read from its lexemes. -/
structure HeaderReadable (h : FunctionHeader) : Prop where
  decorators : ∀ d ∈ h.decorators, Readable d
  params : ∀ p ∈ h.params, p.Readable
  defaults : h.params.Pairwise fun p q => p.default.isSome = true → q.default.isSome = true
  returnType : ∀ e ∈ h.returnType, Readable e

theorem stmtReads_function {header : FunctionHeader} (hheader : HeaderReadable header)
    (hbody : BodyReads b body) : StmtReads b (.function header body) := by
  intro d n level ts more hb hmore hts hn hd
  replace hmore := hmore rfl
  rw [Stmt.rows, List.append_assoc, rowKinds_header] at hts
  rw [Stmt.rows] at hb
  obtain ⟨d, rfl⟩ := Nat.exists_eq_add_one_of_ne_zero (show d ≠ 0 by omega)
  obtain ⟨ds, us, rfl, hds, hus⟩ := split_tokens hts
  have hline : header.lexemes ++ .newline :: rowKinds level (bodyRows (level + 1) body ++ more) =
      .keyword .defKw :: .identifier header.name :: .symbol .leftParen
        :: (separated (header.params.map Param.lexemes) ++ .symbol .rightParen
          :: (lexemesAfter .arrow header.returnType ++ .symbol .colon :: .newline
            :: rowKinds level (bodyRows (level + 1) body ++ more))) := by
    simp [FunctionHeader.lexemes, bracketed]
  rw [hline] at hus
  obtain ⟨f, us, rfl, hf, hus⟩ := cons_tokens hus
  obtain ⟨i, us, rfl, hi, hus⟩ := cons_tokens hus
  obtain ⟨o, us, rfl, ho, hus⟩ := cons_tokens hus
  obtain ⟨ps, us, rfl, hps, hus⟩ := split_tokens hus
  obtain ⟨c, us, rfl, hc, hus⟩ := cons_tokens hus
  obtain ⟨rs, vs, rfl, hrs, hvs⟩ := split_tokens hus
  obtain ⟨v, vs, rfl, hv, hvs'⟩ := cons_tokens hvs
  simp only [List.length_cons, List.length_append] at hd hn
  -- The depth bound covers all parts of the line.
  have hweight : weight header.lexemes ≤ b := hb.left _ (List.mem_append_right _ List.mem_cons_self)
  simp only [FunctionHeader.lexemes, weight_cons, weight_append, weight_bracketed] at hweight
  have hdecorators : ∀ d ∈ header.decorators, weight (d.lexemes 0) ≤ b := by
    intro d hd
    have hrow : weight (.symbol .atSign :: d.lexemes 0) ≤ b :=
      hb.left _ (List.mem_append_left _ (List.mem_map_of_mem hd))
    rw [weight_cons] at hrow
    omega
  have hparams : ∀ q ∈ header.params, weight q.lexemes ≤ b := by
    intro q hq
    have hle := weight_le_separated (List.mem_map_of_mem (f := Param.lexemes) hq)
    omega
  have hmany : header.decorators.length < n := by
    have hle := length_le_decoratorLexemes header.decorators
    rw [← hds, List.length_map] at hle
    omega
  have hmany' : header.params.length < n := by
    have hnames : ∀ ks ∈ header.params.map Param.lexemes, ks ≠ [] := by simp [Param.lexemes]
    have hle := length_le_separated hnames
    rw [← hps, List.length_map, List.length_map] at hle
    omega
  obtain ⟨decorators', hreadDecorators, hsameDecorators⟩ := takes_decorators hheader.decorators
    hdecorators n hmany n ds (f :: i :: o :: (ps ++ c :: (rs ++ v :: vs))) hds (by omega)
    (stops_cons hf rfl)
  obtain ⟨params', hreadParams, hsameParams⟩ := takes_paramsAfter hheader.params hparams n hmany'
    false (fun h => Bool.noConfusion h) hheader.defaults n ps (c :: (rs ++ v :: vs)) hps (by omega)
    (stops_cons hc rfl)
  obtain ⟨returnType', hreadType, hsameType⟩ := takes_exprAfter hheader.returnType (b := b)
    (by omega) n rs (v :: vs) hrs (by omega) (stops_cons hv (by decide))
  obtain ⟨body', rest, hreads, hrest, hshort, hbody'⟩ := hbody.suite hb.right hmore.outside (d := d)
    (n := n) hvs (by rw [List.length_cons]; omega) (by rw [List.length_cons]; omega)
  rw [List.length_cons] at hshort
  refine ⟨.function ⟨header.name, decorators', params', returnType', f.span⟩ body', rest, ?_,
    ⟨hrest, ?_⟩, congrArg₂ Stmt.function ?_ hbody'⟩
  · have hread : Reads (functionDef (exprParsers (b + 1)) (stmtWithin (exprParsers (b + 1)) d)) n
        (ds ++ f :: i :: o :: (ps ++ c :: (rs ++ v :: vs)))
        (.function ⟨header.name, decorators', params', returnType', f.span⟩ body') rest := by
      refine Reads.bind (Reads.bounded hreadDecorators) ?_
      refine Reads.bind (Reads.expect hf (by simp) _) ?_
      refine Reads.bind (Reads.identifier hi (by simp) _) ?_
      refine Reads.bind (Reads.expectSymbol ho (by simp)) ?_
      refine Reads.bind (Reads.bounded hreadParams) ?_
      refine Reads.bind (Reads.expectSymbol hc (by simp)) ?_
      exact Reads.bind hreadType (Reads.bind hreads (Reads.pure _))
    cases hempty : header.decorators with
    | nil =>
      rw [hempty] at hds
      obtain rfl : ds = [] := List.map_eq_nil_iff.mp hds
      exact (stmtOver_function (.inr hf)).trans hread
    | cons e es =>
      rw [hempty] at hds
      obtain ⟨t, ds, rfl, ht, -⟩ := cons_tokens hds
      exact (stmtOver_function (.inl ht)).trans hread
  · simp only [List.length_cons, List.length_append]
    omega
  · show FunctionHeader.mk header.name (decorators'.map (Expr.strip .literal))
      (params'.map (Param.strip .bare)) (returnType'.map (Expr.strip .literal)) .synthetic = _
    rw [hsameDecorators, hsameParams, hsameType]
    rfl

/-! ## Conditionals -/

/-- The conditional is read from its rows, which start with any keyword. -/
def BranchReads (b : Nat) (s : Stmt) : Prop :=
  ∀ keyword d m n level ts more, Within b (s.rows level keyword) → Follows level more →
    ts.map Token.kind = rowKinds level (s.rows level keyword ++ more) →
      ts.length ≤ d → ts.length < m → ts.length < n →
        ∃ s' rest, Reads (branch (exprParsers (b + 1)) (stmtWithin (exprParsers (b + 1)) d) m) n ts
            s' rest ∧
          Leaves level more ts rest ∧ s'.strip .bare = s.strip .plain

theorem BranchReads.stmt {condition : Expr} {thenBlock : List Stmt}
    {elseBlock : Option (List Stmt)} {span : Span}
    (h : BranchReads b (.branch condition thenBlock elseBlock span)) :
    StmtReads b (.branch condition thenBlock elseBlock span) := by
  intro d n level ts more hb hmore hts hn hd
  replace hmore := hmore rfl
  obtain ⟨d, rfl⟩ := Nat.exists_eq_add_one_of_ne_zero (show d ≠ 0 by omega)
  obtain ⟨s', rest, hread, hleaves, hs'⟩ :=
    h .ifKw d n n level ts more hb hmore hts (by omega) hn hn
  refine ⟨s', rest, ?_, hleaves, hs'⟩
  have hhead : ∃ ks, ts.map Token.kind = .keyword .ifKw :: ks := by
    rw [hts]
    cases elseBlock <;> rw [Stmt.rows, List.cons_append, rowKinds_code] <;> exact ⟨_, rfl⟩
  obtain ⟨ks, hks⟩ := hhead
  obtain ⟨⟨kind, place⟩, us, rfl, rfl, -⟩ := cons_tokens hks
  exact Reads.bind Reads.peekToken (Reads.bounded hread)

/-- What comes after the first block of a conditional. -/
def branchTail (p : ExprParsers) (stmt : Parser Stmt) (n : Nat) (condition : Expr)
    (thenBlock : List Stmt) (place : Span) : Parser Stmt := do
  match ← peek with
  | .keyword .elifKw => return .branch condition thenBlock (some [← branch p stmt n]) place
  | .keyword .elseKw =>
    let _ ← advance
    return .branch condition thenBlock (some (← colonSuite p stmt)) place
  | _ => return .branch condition thenBlock none place

/-- The rows after the first block of a conditional are read as the other block. -/
def TailReads (b : Nat) (elseRows : Nat → List Row) (elseBlock : Option (List Stmt)) : Prop :=
  ∀ d m n level ts more condition thenBlock place, Within b (elseRows level) → Follows level more →
    ts.map Token.kind = rowKinds level (elseRows level ++ more) →
      ts.length < d → ts.length < m → ts.length < n →
        ∃ block rest, Reads (branchTail (exprParsers (b + 1)) (stmtWithin (exprParsers (b + 1)) d) m
            condition thenBlock place) n ts (.branch condition thenBlock block place) rest ∧
          rest.map Token.kind = rowKinds level more ∧ rest.length ≤ ts.length ∧
          block.map (stripBlock .bare) = elseBlock.map (stripBlock .plain)

theorem Stmt.strip_branch (o : Outline) (condition : Expr) (thenBlock : List Stmt)
    (elseBlock : Option (List Stmt)) (span : Span) :
    (Stmt.branch condition thenBlock elseBlock span).strip o =
      .branch (condition.strip o.constant) (stripBlock o thenBlock) (elseBlock.map (stripBlock o))
        .synthetic := by
  cases elseBlock <;> rw [Stmt.strip] <;> rfl

theorem branchReads_of {condition : Expr} {thenBlock : List Stmt} {elseBlock : Option (List Stmt)}
    {span : Span} {elseRows : Nat → List Row} (hcondition : Readable condition)
    (hthen : BodyReads b thenBlock)
    (hrows : ∀ level keyword, (Stmt.branch condition thenBlock elseBlock span).rows level keyword =
      .code level (.keyword keyword :: (condition.lexemes 0 ++ [.symbol .colon]))
        :: (bodyRows (level + 1) thenBlock ++ elseRows level))
    (houtside : ∀ level more, Follows level more → Outside level (elseRows level ++ more))
    (helse : TailReads b elseRows elseBlock) :
    BranchReads b (.branch condition thenBlock elseBlock span) := by
  intro keyword d m n level ts more hb hmore hts hd hm hn
  rw [hrows, List.cons_append, List.append_assoc, rowKinds_colon] at hts
  rw [hrows] at hb
  obtain ⟨m, rfl⟩ := Nat.exists_eq_add_one_of_ne_zero (show m ≠ 0 by omega)
  obtain ⟨t, us, rfl, ht, hus⟩ := cons_tokens hts
  obtain ⟨cs, vs, rfl, hcs, hvs⟩ := split_tokens hus
  obtain ⟨v, vs, rfl, hv, hvs'⟩ := cons_tokens hvs
  simp only [List.length_cons, List.length_append] at hd hm hn
  have hweight := hb.head
  rw [weight_cons, weight_append] at hweight
  obtain ⟨condition', hread, hcondition'⟩ := hcondition.takes_expr (d := b) (by omega) n cs
    (v :: vs) hcs (by omega) (stops_cons hv (by decide))
  obtain ⟨thenBlock', mid, hreads, hmid, hshort, hthen'⟩ := hthen.suite hb.tail.left
    (houtside level more hmore) (d := d) (n := n) hvs (by rw [List.length_cons]; omega)
    (by rw [List.length_cons]; omega)
  rw [List.length_cons] at hshort
  obtain ⟨block', rest, hreadElse, hrest, hlength, hblock'⟩ := helse d m n level mid more condition'
    thenBlock' t.span hb.tail.right hmore hmid (by omega) (by omega) (by omega)
  refine ⟨.branch condition' thenBlock' block' t.span, rest, ?_, ⟨hrest, ?_⟩, ?_⟩
  · refine Reads.bind (Reads.advance (by simp)) (Reads.bind hread (Reads.bind hreads ?_))
    exact hreadElse
  · simp only [List.length_cons, List.length_append]
    omega
  · have hbare : condition'.strip Outline.bare.constant = condition.strip Outline.plain.constant :=
      hcondition'
    rw [Stmt.strip_branch, Stmt.strip_branch, hbare, hthen', hblock']

theorem tailReads_none : TailReads b (fun _ => []) none := by
  intro d m n level ts more condition thenBlock place _ hmore hts hd hm hn
  have hkinds : ts.map Token.kind = rowKinds level more := hts
  refine ⟨none, ts, ?_, hkinds, Nat.le_refl _, rfl⟩
  obtain ⟨k, ks, hhead, hk⟩ := hmore.head
  obtain ⟨t, us, rfl, ht, -⟩ := cons_tokens (hkinds.trans hhead)
  refine Reads.bind Reads.peek ?_
  split
  · next heq => exact absurd (ht.symm.trans heq) hk.1
  · next heq => exact absurd (ht.symm.trans heq) hk.2
  · exact Reads.pure _

/-- The conditional starts with its keyword. -/
def StartsElif (s : Stmt) : Prop :=
  ∀ level, ∃ ks rows, s.rows level .elifKw = .code level (.keyword .elifKw :: ks) :: rows

theorem tailReads_elif {s : Stmt} (hs : BranchReads b s) (hhead : StartsElif s) :
    TailReads b (fun level => s.rows level .elifKw) (some [s]) := by
  intro d m n level ts more condition thenBlock place hb hmore hts hd hm hn
  dsimp only at hts hb
  obtain ⟨s', rest, hread, hleaves, hs'⟩ := hs .elifKw d m n level ts more hb hmore hts
    (Nat.le_of_lt hd) hm hn
  refine ⟨some [s'], rest, ?_, hleaves.kinds, Nat.le_of_lt hleaves.shorter, ?_⟩
  · obtain ⟨ks, rows, hrows⟩ := hhead level
    rw [hrows, List.cons_append, rowKinds_code] at hts
    obtain ⟨⟨kind, span⟩, us, rfl, rfl, -⟩ := cons_tokens hts
    exact Reads.bind Reads.peek (Reads.bind hread (Reads.pure _))
  · exact congrArg (fun s => some [s]) hs'

theorem tailReads_else (hbody : BodyReads b body) :
    TailReads b (fun level => .code level [.keyword .elseKw, .symbol .colon]
      :: bodyRows (level + 1) body) (some body) := by
  intro d m n level ts more condition thenBlock place hb hmore hts hd hm hn
  rw [List.cons_append, rowKinds_code] at hts
  obtain ⟨⟨kind, span⟩, us, rfl, rfl, hus⟩ := cons_tokens hts
  rw [List.length_cons] at hd hn
  obtain ⟨body', rest, hread, hrest, hshort, hbody'⟩ := hbody.suite hb.tail hmore.outside (d := d)
    (n := n) hus (by omega) (by omega)
  have hne : us ≠ [] := by
    rintro rfl
    exact absurd hus.symm (by simp)
  refine ⟨some body', rest, ?_, hrest, ?_, congrArg some hbody'⟩
  · refine Reads.bind Reads.peek (Reads.bind (Reads.advance hne) ?_)
    exact Reads.bind hread (Reads.pure _)
  · rw [List.length_cons]
    omega

theorem branchReads_none {condition : Expr} {thenBlock : List Stmt} (hcondition : Readable condition)
    (hthen : BodyReads b thenBlock) (span : Span) :
    BranchReads b (.branch condition thenBlock none span) := by
  apply branchReads_of hcondition hthen (fun level keyword => by rw [Stmt.rows]) _ tailReads_none
  exact fun level more hmore => hmore.outside

theorem branchReads_elif {condition : Expr} {thenBlock : List Stmt} {s : Stmt}
    (hcondition : Readable condition) (hthen : BodyReads b thenBlock) (hs : BranchReads b s)
    (hhead : StartsElif s) (helif : isElif [s] = true) (span : Span) :
    BranchReads b (.branch condition thenBlock (some [s]) span) := by
  apply branchReads_of hcondition hthen _ _ (tailReads_elif hs hhead)
  · intro level keyword
    rw [Stmt.rows, if_pos helif, blockRows, blockRows, List.append_nil]
  · intro level more _
    obtain ⟨ks, rows, hrows⟩ := hhead level
    rw [hrows]
    exact Nat.le_refl level

theorem branchReads_else {condition : Expr} {thenBlock block : List Stmt}
    (hcondition : Readable condition) (hthen : BodyReads b thenBlock) (hblock : BodyReads b block)
    (hnot : ¬ isElif block = true) (span : Span) :
    BranchReads b (.branch condition thenBlock (some block) span) := by
  apply branchReads_of hcondition hthen _ _ (tailReads_else hblock)
  · intro level keyword
    rw [Stmt.rows, if_neg hnot]
  · exact fun level more _ => Nat.le_refl level

end Bodies

/-! ## Statements that can be read -/

theorem FunctionHeader.Meets.readable {h : FunctionHeader} (hh : h.Meets .readable) :
    HeaderReadable h where
  decorators d hd := Expr.Legible.readable d (hh.decorators d hd)
  params q hq :=
    have hparam := hh.params q hq
    ⟨fun e he => Expr.Legible.readable e (hparam.annotation e he),
      fun e he => Expr.Legible.readable e (hparam.default e he)⟩
  defaults := hh.defaults
  returnType e he := Expr.Legible.readable e (hh.returnType e he)

theorem startsElif_of_isElif {s : Stmt} (h : isElif [s] = true) : StartsElif s := by
  intro level
  match s, h with
  | .branch _ _ none _, _ | .branch _ _ (some _) _, _ =>
    rw [Stmt.rows]
    exact ⟨_, _, rfl⟩

theorem stmtReads_word {word : Keyword} {s : Stmt} (h : word.statement? = some s) :
    StmtReads b s := by
  have hopens : Lexeme.opensBlock (.keyword word) = false := by
    cases word <;> cases h <;> rfl
  refine stmtReads_line (fun level => ?_) ⟨.keyword word, rfl, hopens⟩ fun _ => lineReads_word h
  cases word <;> cases h <;> rfl

theorem blockRuns_pass : BlockRuns b (bodyRows · []) (stripBlock .plain []) :=
  have hpass : StmtReads b .pass := stmtReads_word (show Keyword.passKw.statement? = _ from rfl)
  blockRuns_nil.cons hpass fun hblock => Bool.noConfusion hblock

theorem bodyReads_nil : BodyReads b [] :=
  ⟨[], (bodyRows · []), _, fun _ => rfl, fun _ => ⟨_, _, rfl⟩, blockRuns_pass, rfl⟩

theorem areTidy_cons {s : Stmt} {stmts : List Stmt} (h : areTidy (s :: stmts) = true) :
    s.isTidy = true ∧ (s.hasBlock = true → startsWithComment stmts = false) ∧
      areTidy stmts = true := by
  simp only [areTidy, Bool.and_eq_true, Bool.not_eq_true', Bool.and_eq_false_imp] at h
  exact ⟨h.1.1, h.1.2, h.2⟩

mutual

/-- A statement is read from its rows, and so is a conditional that starts with any keyword. -/
theorem Stmt.reads (s : Stmt) (hs : s.Meets .readable) (hr : s.isRegular = true)
    (ht : s.isTidy = true) : StmtReads b s ∧ (isElif [s] = true → BranchReads b s) := by
  have hstarts (e : Expr) (ks : List Lexeme) :
      ∃ k ∈ (e.lexemes 0 ++ ks).head?, k.opensBlock = false := by
    obtain ⟨k, hk, hstarts⟩ := ((opensWith_lexemes 0 e).append (Nat.le_refl 0) ks).starts
    exact ⟨k, hk, opensBlock_of_startsExpr hstarts⟩
  have honly (h : StmtReads b s) (hnot : isElif [s] = false) :
      StmtReads b s ∧ (isElif [s] = true → BranchReads b s) :=
    ⟨h, fun helif => by rw [hnot] at helif; exact Bool.noConfusion helif⟩
  match s, hs, hr, ht, honly with
  | .function header body, hs, hr, ht, honly =>
    exact honly (stmtReads_function hs.1.readable (Body.reads body hs.2 hr ht)) rfl
  | .branch condition thenBlock none span, hs, hr, ht, _ =>
    obtain ⟨hthen, -⟩ := Bool.and_eq_true_iff.mp hr
    obtain ⟨htidy, -⟩ := Bool.and_eq_true_iff.mp ht
    have hbranch := branchReads_none (Expr.Legible.readable condition hs.1)
      (Body.reads thenBlock hs.2.1 hthen htidy) span
    exact ⟨hbranch.stmt, fun _ => hbranch⟩
  | .branch condition thenBlock (some [s]) span, hs, hr, ht, _ =>
    obtain ⟨hthen, helse⟩ := Bool.and_eq_true_iff.mp hr
    obtain ⟨htidy, htidy'⟩ := Bool.and_eq_true_iff.mp ht
    have hbody := Body.reads thenBlock hs.2.1 hthen htidy
    have hbranch : BranchReads b (.branch condition thenBlock (some [s]) span) := by
      by_cases helif : isElif [s] = true
      · have hs' := Stmt.reads s hs.2.2.1 (Bool.and_eq_true_iff.mp helse).1
          (areTidy_cons (Bool.and_eq_true_iff.mp htidy').2).1
        exact branchReads_elif (Expr.Legible.readable condition hs.1) hbody (hs'.2 helif)
          (startsElif_of_isElif helif) helif span
      · exact branchReads_else (Expr.Legible.readable condition hs.1) hbody
          (Body.reads [s] hs.2.2 helse htidy') helif span
    exact ⟨hbranch.stmt, fun _ => hbranch⟩
  | .branch condition thenBlock (some []) span, hs, hr, ht, _ =>
    obtain ⟨hthen, -⟩ := Bool.and_eq_true_iff.mp hr
    obtain ⟨htidy, -⟩ := Bool.and_eq_true_iff.mp ht
    have hbranch := branchReads_else (Expr.Legible.readable condition hs.1)
      (Body.reads thenBlock hs.2.1 hthen htidy) bodyReads_nil (by decide) span
    exact ⟨hbranch.stmt, fun _ => hbranch⟩
  | .branch condition thenBlock (some (s :: s' :: block)) span, hs, hr, ht, _ =>
    obtain ⟨hthen, helse⟩ := Bool.and_eq_true_iff.mp hr
    obtain ⟨htidy, htidy'⟩ := Bool.and_eq_true_iff.mp ht
    have hbranch := branchReads_else (Expr.Legible.readable condition hs.1)
      (Body.reads thenBlock hs.2.1 hthen htidy) (Body.reads (s :: s' :: block) hs.2.2 helse htidy')
      (by simp [isElif]) span
    exact ⟨hbranch.stmt, fun _ => hbranch⟩
  | .whileLoop condition body span, hs, hr, ht, honly =>
    have hcondition := Expr.Legible.readable condition hs.1
    exact honly (stmtReads_while hcondition (Body.reads body hs.2 hr ht) span) rfl
  | .forLoop target iterable body span, hs, hr, ht, honly =>
    obtain ⟨hatom, hr⟩ := Bool.and_eq_true_iff.mp hr
    have htarget := Expr.Legible.readable target hs.1
    have hiterable := Expr.Legible.readable iterable hs.2.1
    exact honly (stmtReads_for htarget (beq_iff_eq.mp hatom) hiterable
      (Body.reads body hs.2.2 hr ht) span) rfl
  | .matchOn subject cases span, hs, hr, ht, honly =>
    obtain ⟨hne, hr⟩ := Bool.and_eq_true_iff.mp hr
    have hcases : cases ≠ [] := by simpa using hne
    exact honly (stmtReads_match (Expr.Legible.readable subject hs.1) hcases
      (Cases.reads cases hs.2 hr ht) span) rfl
  | .returnValue value span, hs, _, _, honly =>
    refine honly (stmtReads_line (fun level => rfl) ⟨.keyword .returnKw, ?_, rfl⟩
      (lineReads_return (fun e he => Expr.Legible.readable e (hs e he)) span)) rfl
    rw [keywordLexemes_eq]
    rfl
  | .raise value span, hs, _, _, honly =>
    refine honly (stmtReads_line (fun level => rfl) ⟨.keyword .raiseKw, ?_, rfl⟩
      (lineReads_raise (fun e he => Expr.Legible.readable e (hs e he)) span)) rfl
    rw [keywordLexemes_eq]
    rfl
  | .assign target value span, hs, _, _, honly =>
    exact honly (stmtReads_line (fun level => rfl) (hstarts target _)
      (lineReads_assign (Expr.Legible.readable target hs.1.1) (Expr.Legible.readable value hs.2)
        hs.1.2 span)) rfl
  | .augment op target value span, hs, _, _, honly =>
    exact honly (stmtReads_line (fun level => rfl) (hstarts target _)
      (lineReads_augment hs.1 (Expr.Legible.readable target hs.2.1.1)
        (Expr.Legible.readable value hs.2.2) hs.2.1.2 span)) rfl
  | .importModules names span, hs, _, _, honly =>
    exact honly (stmtReads_line (fun level => rfl) ⟨_, rfl, rfl⟩
      fun _ => lineReads_importModules hs.1 span) rfl
  | .importNames dots module names span, hs, _, _, honly =>
    exact honly (stmtReads_line (fun level => rfl) ⟨_, rfl, rfl⟩
      fun _ => lineReads_importNames hs.1 hs.2.2.1 span) rfl
  | .expr value, hs, _, _, honly =>
    refine honly (stmtReads_line (fun level => rfl) ?_
      (lineReads_expr (Expr.Legible.readable value hs))) rfl
    simpa using hstarts value []
  | .comment text, hs, _, _, honly => exact honly (stmtReads_comment hs) rfl
  | .pass, _, _, _, honly =>
    exact honly (stmtReads_word (show Keyword.passKw.statement? = _ from rfl)) rfl
  | .breakLoop, _, _, _, honly =>
    exact honly (stmtReads_word (show Keyword.breakKw.statement? = _ from rfl)) rfl
  | .continueLoop, _, _, _, honly =>
    exact honly (stmtReads_word (show Keyword.continueKw.statement? = _ from rfl)) rfl

/-- A block is read from its rows. -/
theorem Body.reads (body : List Stmt) (h : StmtsMeet .readable body) (hr : areRegular body = true)
    (ht : (hasMoreThanComments body && areTidy body) = true) : BodyReads b body := by
  obtain ⟨hmore, htidy⟩ := Bool.and_eq_true_iff.mp ht
  match body, h, hr, hmore, htidy with
  | [], _, _, _, _ => exact bodyReads_nil
  | s :: stmts, h, hr, hmore, htidy =>
    obtain ⟨hfirst, hothers⟩ := Bool.and_eq_true_iff.mp hr
    obtain ⟨hs, hnext, hstmts⟩ := areTidy_cons htidy
    by_cases hcomment : s.isComment = true
    · match s, hcomment with
      | .comment text, _ =>
        have hany : stmts.any (fun stmt => !stmt.isComment) = true := hmore
        have hne : stmts ≠ [] := by
          rintro rfl
          exact Bool.noConfusion hany
        have hmore' : hasMoreThanComments stmts = true := by
          rw [hasMoreThanComments, hany, Bool.or_true]
        obtain ⟨texts, rows, plain, hstarts⟩ := Body.reads stmts h.2 hothers
          (Bool.and_eq_true_iff.mpr ⟨hmore', hstmts⟩)
        exact ⟨text :: texts, rows, plain, hstarts.comment h.1 hne⟩
    · have hcode (level : Nat) : ∃ ks more, bodyRows level (s :: stmts) = .code level ks :: more := by
        obtain ⟨k, ks, rows, hrows, -⟩ := s.rows_head (Bool.eq_false_iff.mpr hcomment) level
        exact ⟨k :: ks, rows ++ blockRows level .ifKw stmts, by rw [bodyRows, hrows]; rfl⟩
      have hruns := (Block.reads stmts h.2 hothers hstmts).cons (Stmt.reads s h.1 hfirst hs).1
        fun hblock level more hmore => follows_block (hnext hblock) hmore
      exact ⟨[], (bodyRows · (s :: stmts)), _, fun _ => rfl, hcode, hruns, rfl⟩

/-- Statements are read from their rows. -/
theorem Block.reads (stmts : List Stmt) (h : StmtsMeet .readable stmts)
    (hr : areRegular stmts = true) (ht : areTidy stmts = true) :
    BlockRuns b (blockRows · .ifKw stmts) (stripStmts .plain stmts) := by
  match stmts, h, hr, ht with
  | [], _, _, _ => exact blockRuns_nil
  | s :: stmts, h, hr, ht =>
    obtain ⟨hfirst, hothers⟩ := Bool.and_eq_true_iff.mp hr
    obtain ⟨htidy, hnext, htidy'⟩ := areTidy_cons ht
    exact (Block.reads stmts h.2 hothers htidy').cons (Stmt.reads s h.1 hfirst htidy).1
      fun hblock level more hmore => follows_block (hnext hblock) hmore

/-- Cases are read from their rows. -/
theorem Cases.reads (cases : List Case) (h : CasesMeet .readable cases)
    (hr : areRegularCases cases = true) (ht : casesTidy cases = true) : CasesRun b cases := by
  match cases, h, hr, ht with
  | [], _, _, _ => exact casesRun_nil
  | .on pattern body :: cases, h, hr, ht =>
    obtain ⟨hbody, hothers⟩ := Bool.and_eq_true_iff.mp hr
    obtain ⟨htidy, htidy'⟩ := Bool.and_eq_true_iff.mp ht
    exact (Cases.reads cases h.2 hothers htidy').cons h.1.1 (Body.reads body h.1.2 hbody htidy)

end

/-- The statements of a module are read from their rows. -/
theorem Module.reads (body : List Stmt) (h : StmtsMeet .readable body)
    (hr : areRegular body = true) (ht : areTidy body = true) :
    BlockRuns b (bodyRows · body) (stripBlock .plain body) := by
  match body, h, hr, ht with
  | [], _, _, _ => exact blockRuns_pass
  | s :: stmts, h, hr, ht => exact Block.reads (s :: stmts) h hr ht

end StagedScript.Syntax
