import StagedScript.Proofs.Syntax.PatternReading
import StagedScript.Proofs.Syntax.StatementText

/-!
# Reading printed lines

The lexemes of the line of a legible statement are read as the statement, and
those of the parts of a function header as these parts.
-/

namespace StagedScript.Syntax

open Text StagedScript.Syntax.Parser

variable {b : Nat}

theorem takes_dottedTail (parts : List String) : ∀ m, parts.length < m →
    Takes (dottedTail m) (fieldLexemes parts) (· ≠ .symbol .dot)
      (fun tail => tail.toList = parts.flatMap fun part => '.' :: part.toList) := by
  induction parts with
  | nil =>
    intro m hm n ts rest hts hn hrest
    obtain ⟨m, rfl⟩ := Nat.exists_eq_add_one_of_ne_zero (show m ≠ 0 by omega)
    obtain rfl : ts = [] := List.map_eq_nil_iff.mp hts
    obtain ⟨t, rest, rfl, ht⟩ := hrest
    exact ⟨"", Reads.bind (Reads.accept_false ht) (Reads.pure ""), rfl⟩
  | cons part parts ih =>
    intro m hm n ts rest hts hn hrest
    rw [List.length_cons] at hm
    obtain ⟨m, rfl⟩ := Nat.exists_eq_add_one_of_ne_zero (show m ≠ 0 by omega)
    obtain ⟨t, us, rfl, ht, hus⟩ := cons_tokens hts
    obtain ⟨u, us, rfl, hu, hus'⟩ := cons_tokens hus
    simp only [List.length_cons] at hn
    obtain ⟨tail, hread, htail⟩ := ih m (by omega) n us rest hus' (by omega) hrest
    refine ⟨"." ++ part ++ tail, ?_, ?_⟩
    · refine Reads.bind (Reads.accept_true ht (by simp)) ?_
      refine Reads.bind (Reads.identifier hu (append_ne_nil hrest) _) ?_
      exact Reads.bind hread (Reads.pure _)
    · simp [htail]

theorem takes_dottedName (name : String) :
    Takes dottedName (dottedLexemes (nameParts name)) (· ≠ .symbol .dot) (· = name) := by
  have htext := toList_nameParts name
  obtain ⟨first, others, hparts⟩ := List.exists_cons_of_ne_nil (nameParts_ne_nil name)
  rw [hparts] at htext ⊢
  intro n ts rest hts hn hrest
  obtain ⟨t, us, rfl, ht, hus⟩ := cons_tokens hts
  rw [List.length_cons] at hn
  have hlength : others.length < n := by
    have hle := congrArg List.length hus
    rw [List.length_map, length_fieldLexemes] at hle
    omega
  obtain ⟨tail, hread, htail⟩ := takes_dottedTail others n hlength n us rest hus (by omega) hrest
  refine ⟨first ++ tail, ?_, ?_⟩
  · refine Reads.bind (Reads.identifier ht (append_ne_nil hrest) _) ?_
    exact Reads.bind (Reads.bounded hread) (Reads.pure _)
  · show first ++ tail = name
    rw [← String.toList_inj, String.toList_append, htail, htext]

/-- What may follow an imported name. -/
def EndsAlias (k : Lexeme) : Prop :=
  k = .symbol .comma ∨ k = .newline

theorem takes_alias {a : Alias} {name : Parser String} {ks : List Lexeme}
    (h : Takes name ks (· ≠ .symbol .dot) (· = a.name)) :
    Takes (aliasOf name) (a.lexemes ks) EndsAlias (· = a) := by
  intro n ts rest hts hn hrest
  obtain ⟨us, vs, rfl, hus, hvs⟩ := split_tokens hts
  rw [List.length_append] at hn
  obtain ⟨own, rename⟩ := a
  cases rename with
  | none =>
    obtain rfl : vs = [] := List.map_eq_nil_iff.mp hvs
    obtain ⟨name', hread, rfl⟩ := h n us rest hus (by omega) (hrest.mono fun k hk => by
      rcases hk with rfl | rfl <;> decide)
    obtain ⟨t, rest, rfl, ht⟩ := hrest
    have hnot : t.kind ≠ .keyword .asKw := by
      rcases ht with ht | ht <;> rw [ht] <;> decide
    refine ⟨⟨name', none⟩, ?_, rfl⟩
    rw [List.append_nil]
    exact Reads.bind hread (Reads.bind (Reads.accept_false hnot) (Reads.pure _))
  | some new =>
    obtain ⟨v, vs, rfl, hv, hvs'⟩ := cons_tokens hvs
    obtain ⟨w, ws, rfl, hw, hws⟩ := cons_tokens hvs'
    obtain rfl : ws = [] := List.map_eq_nil_iff.mp hws
    obtain ⟨name', hread, rfl⟩ := h n us (v :: w :: rest) hus (by omega)
      (stops_cons hv (by decide))
    refine ⟨⟨name', some new⟩, ?_, rfl⟩
    rw [List.append_assoc]
    refine Reads.bind hread (Reads.bind (Reads.accept_true hv (by simp)) ?_)
    exact Reads.bind (Reads.identifier hw hrest.ne_nil _) (Reads.pure _)

/-- Imported names with commas between them: the first one and the others. -/
theorem takes_aliases (item : Parser Alias) {kinds : Alias → List Lexeme} {first : Alias}
    {others : List Alias} (h : ∀ a, Takes item (kinds a) EndsAlias (· = a))
    (hheads : ∀ a ∈ others, kinds a ≠ []) (n : Nat) (ts rest : List Token)
    (hts : ts.map Token.kind = separated ((first :: others).map kinds)) (hn : ts.length < n)
    (hrest : Stops (· = .newline) rest) : ∃ first' others' mid,
      Reads item n (ts ++ rest) first' mid ∧
        Reads (bounded (itemsAfter .comma (fun _ => true) item)) n mid others' rest ∧
          first' :: others' = first :: others := by
  rw [List.map_cons, separated_cons] at hts
  obtain ⟨us, vs, rfl, hus, hvs⟩ := split_tokens hts
  rw [List.length_append] at hn
  have hnext : Stops EndsAlias (vs ++ rest) := by
    cases others with
    | nil =>
      obtain rfl : vs = [] := List.map_eq_nil_iff.mp hvs
      exact hrest.mono fun k hk => .inr hk
    | cons a others =>
      obtain ⟨v, vs, rfl, hv, -⟩ := cons_tokens hvs
      exact stops_cons hv (.inl rfl)
  obtain ⟨first', hread, hfirst⟩ := h first n us (vs ++ rest) hus (by omega) hnext
  have hall : TakesAll item (fun _ => true = true) EndsAlias (fun a a' => a' = a) others
      (others.map kinds) := by
    rw [TakesAll, List.forall₂_map_right_iff, List.forall₂_same]
    intro a ha
    obtain ⟨k, ks, hks⟩ := List.exists_cons_of_ne_nil (hheads a ha)
    exact ⟨h a, k, by rw [hks]; rfl, rfl⟩
  have hlength : others.length < n := by
    have hle := length_le_preceded .comma (others.map kinds)
    rw [← hvs, List.length_map, List.length_map] at hle
    omega
  have hitems := takes_itemsAfter (.inl rfl) hall n hlength
  obtain ⟨others', hreads, hothers⟩ := hitems n vs rest hvs (by omega)
    (hrest.mono fun k hk => ⟨.inr hk, by rw [hk]; decide⟩)
  have hsame : others' = others := by
    rw [← List.forall₂_eq_eq_eq]
    exact hothers.flip
  rw [List.append_assoc]
  exact ⟨first', others', _, hread, Reads.bounded hreads, by rw [hfirst, hsame]⟩

/-- What is read from a target can be assigned to. -/
theorem badTarget?_of_rereads {e e' : Expr} (h : Rereads e e') (he : badTarget? e = none) :
    badTarget? e' = none := by
  have hliteral (c : Constant) : (badTarget? (.literal c)).isSome = true := rfl
  have hplain (c : Constant) : (badTarget? c.plain).isSome = true := by
    unfold Constant.plain
    repeat' split
    all_goals rfl
  have hsame : e'.strip .literal = e.strip Constant.plain := h
  rw [← Option.isNone_iff_eq_none, ← Option.isSome_eq_false_iff] at he ⊢
  rw [← badTarget?_strip hliteral e', hsame, badTarget?_strip hplain e, he]

/-! ## Statements on one line -/

theorem simpleStmt_expr {p : ExprParsers} {n : Nat} {t : Token} {ts : List Token}
    (h : startsExpr t.kind = true) : simpleStmt p n (t :: ts) =
      (do let stmt ← exprStmt p
          endOfLine
          return stmt : Parser Stmt) n (t :: ts) := by
  obtain ⟨kind, span⟩ := t
  replace h : startsExpr kind = true := h
  match kind, h with
  | .identifier _, _ | .integer _, _ | .float _, _ | .string _, _ | .formatted _, _
  | .symbol _, _ => rfl
  | .keyword word, h => cases word <;> first | exact absurd h (by decide) | rfl

theorem endOfLine_reads {n : Nat} {t : Token} {rest : List Token} (ht : t.kind = .newline)
    (hne : rest ≠ []) : Reads endOfLine n (t :: rest) () rest :=
  Reads.bind (Reads.expect ht hne _) (Reads.pure ())

/-- The statement is read from the lexemes and the end of the line. -/
def LineReads (p : ExprParsers) (s : Stmt) (ks : List Lexeme) : Prop :=
  Takes (simpleStmt p) (ks ++ [.newline]) (fun _ => True)
    (fun s' => s'.strip .bare = s.strip .plain)

/-- A line that starts with an expression. -/
theorem LineReads.of_exprStmt {p : ExprParsers} {s : Stmt} {ks : List Lexeme}
    (hstarts : ∃ k ∈ ks.head?, startsExpr k = true)
    (h : Takes (exprStmt p) ks (· = .newline)
      (fun s' => s'.strip .bare = s.strip .plain)) : LineReads p s ks := by
  intro n ts rest hts hn hrest
  obtain ⟨us, vs, rfl, hus, hvs⟩ := split_tokens hts
  obtain ⟨v, vs, rfl, hv, hvs'⟩ := cons_tokens hvs
  obtain rfl : vs = [] := List.map_eq_nil_iff.mp hvs'
  rw [List.length_append] at hn
  obtain ⟨s', hread, hs'⟩ := h n us (v :: rest) hus (by omega) (stops_cons hv rfl)
  obtain ⟨k, hhead, hk⟩ := hstarts
  obtain ⟨ks', rfl⟩ := List.head?_eq_some_iff.mp hhead
  obtain ⟨u, us, rfl, hu, -⟩ := cons_tokens hus
  refine ⟨s', ?_, hs'⟩
  rw [Reads, List.append_assoc, List.cons_append, simpleStmt_expr (hu ▸ hk)]
  exact Reads.bind hread (Reads.bind (endOfLine_reads hv hrest.ne_nil) (Reads.pure s'))

/-- An expression up to an equals sign or the end of the line. -/
theorem takes_exprList (stop : Lexeme → Prop) {e : Expr} (he : Readable e)
    (hd : weight (e.lexemes 0) ≤ b) (hstop : ∀ k, stop k → k.Below 1 ∧ k ≠ .symbol .comma) :
    Takes (exprListOf (exprParsers (b + 1)).expr) (e.lexemes 0) stop (Rereads e) :=
  (takes_exprListOf_single he hd).mono hstop fun _ h => h

theorem lineReads_expr {value : Expr} (hvalue : Readable value)
    (hd : weight (value.lexemes 0) ≤ b) :
    LineReads (exprParsers (b + 1)) (.expr value) (value.lexemes 0) := by
  apply LineReads.of_exprStmt (opensWith_lexemes 0 value).starts
  intro n ts rest hts hn hrest
  obtain ⟨a, hread, ha⟩ := takes_exprList (· = .newline) hvalue hd
    (by rintro k rfl; decide) n ts rest hts hn hrest
  obtain ⟨t, rest, rfl, ht⟩ := hrest
  have hnone : augmentOp? t.kind = none := by
    rw [ht]
    rfl
  have hnot : t.kind ≠ .symbol .eq := by
    rw [ht]
    decide
  refine ⟨.expr a, ?_, ?_⟩
  · refine Reads.bind hread (Reads.bind Reads.peek ?_)
    rw [hnone]
    exact Reads.bind (Reads.accept_false hnot) (Reads.pure _)
  · exact congrArg Stmt.expr ha

theorem checkTarget_reads {e e' : Expr} (h : Rereads e e') (he : badTarget? e = none) {n : Nat}
    {ts : List Token} : Reads (checkTarget e') n ts () ts := by
  rw [checkTarget, badTarget?_of_rereads h he]
  exact Reads.pure ()

theorem lineReads_assign {target value : Expr} (htarget : Readable target)
    (hvalue : Readable value) (hassignable : badTarget? target = none) (span : Span)
    (hd : weight (target.lexemes 0 ++ .symbol .eq :: value.lexemes 0) ≤ b) :
    LineReads (exprParsers (b + 1)) (.assign target value span)
      (target.lexemes 0 ++ .symbol .eq :: value.lexemes 0) := by
  rw [weight_append, weight_cons] at hd
  apply LineReads.of_exprStmt ((opensWith_lexemes 0 target).append (Nat.le_refl 0) _).starts
  intro n ts rest hts hn hrest
  obtain ⟨us, vs, rfl, hus, hvs⟩ := split_tokens hts
  obtain ⟨v, vs, rfl, hv, hvs'⟩ := cons_tokens hvs
  simp only [List.length_append, List.length_cons] at hn
  obtain ⟨a, hread, ha⟩ := takes_exprList (· = .symbol .eq) htarget (b := b) (by omega)
    (by rintro k rfl; decide) n us (v :: (vs ++ rest)) hus (by omega) (stops_cons hv rfl)
  obtain ⟨e, hread', he⟩ := takes_exprList (· = .newline) hvalue (b := b) (by omega)
    (by rintro k rfl; decide) n vs rest hvs' (by omega) hrest
  have hnone : augmentOp? v.kind = none := by
    rw [hv]
    rfl
  refine ⟨.assign a e a.span, ?_, ?_⟩
  · rw [List.append_assoc, List.cons_append]
    refine Reads.bind hread (Reads.bind Reads.peek ?_)
    rw [hnone]
    refine Reads.bind (Reads.accept_true hv (append_ne_nil hrest)) ?_
    refine Reads.bind (checkTarget_reads ha hassignable) ?_
    exact Reads.bind hread' (Reads.pure _)
  · exact congrArg₂ (Stmt.assign · · .synthetic) ha he

theorem lineReads_augment {op : BinaryOp} (hop : op ∈ [BinaryOp.add, .sub, .mul])
    {target value : Expr} (htarget : Readable target) (hvalue : Readable value)
    (hassignable : badTarget? target = none) (span : Span)
    (hd : weight (target.lexemes 0 ++ .symbol op.augmented :: value.lexemes 0) ≤ b) :
    LineReads (exprParsers (b + 1)) (.augment op target value span)
      (target.lexemes 0 ++ .symbol op.augmented :: value.lexemes 0) := by
  have hsign : augmentOp? (.symbol op.augmented) = some op ∧
      Lexeme.Below 1 (.symbol op.augmented) ∧ Lexeme.symbol op.augmented ≠ .symbol .comma := by
    simp only [List.mem_cons, List.not_mem_nil, or_false] at hop
    rcases hop with rfl | rfl | rfl <;> decide
  rw [weight_append, weight_cons] at hd
  apply LineReads.of_exprStmt ((opensWith_lexemes 0 target).append (Nat.le_refl 0) _).starts
  intro n ts rest hts hn hrest
  obtain ⟨us, vs, rfl, hus, hvs⟩ := split_tokens hts
  obtain ⟨v, vs, rfl, hv, hvs'⟩ := cons_tokens hvs
  simp only [List.length_append, List.length_cons] at hn
  obtain ⟨a, hread, ha⟩ := takes_exprList (· = .symbol op.augmented) htarget (b := b)
    (by omega) (by rintro k rfl; exact hsign.2) n us
    (v :: (vs ++ rest)) hus (by omega) (stops_cons hv rfl)
  obtain ⟨e, hread', he⟩ := takes_exprList (· = .newline) hvalue (b := b) (by omega)
    (by rintro k rfl; decide) n vs rest hvs' (by omega) hrest
  refine ⟨.augment op a e a.span, ?_, ?_⟩
  · rw [List.append_assoc, List.cons_append]
    refine Reads.bind hread (Reads.bind Reads.peek ?_)
    rw [hv, hsign.1]
    refine Reads.bind (Reads.advance (append_ne_nil hrest)) ?_
    refine Reads.bind (checkTarget_reads ha hassignable) ?_
    exact Reads.bind hread' (Reads.pure _)
  · exact congrArg₂ (Stmt.augment op · · .synthetic) ha he

/-- A line that starts with a keyword of its own. -/
theorem LineReads.of_keyword {α : Type} {p : ExprParsers} {s : Stmt} {word : Keyword}
    {ks : List Lexeme} (inner : Span → Parser α) (build : α → Span → Stmt)
    (hbody : ∀ {n span ts a mid rest}, ts ≠ [] → Reads (inner span) n ts a mid →
      Reads endOfLine n mid () rest →
        Reads (simpleStmt p) n (⟨.keyword word, span⟩ :: ts) (build a span) rest)
    (h : ∀ span, Takes (inner span) ks (· = .newline)
      (fun a => (build a span).strip .bare = s.strip .plain)) :
    LineReads p s (.keyword word :: ks) := by
  intro n ts rest hts hn hrest
  obtain ⟨⟨kind, span⟩, us, rfl, rfl, hus⟩ := cons_tokens hts
  obtain ⟨ws, vs, rfl, hws, hvs⟩ := split_tokens hus
  obtain ⟨v, vs, rfl, hv, hvs'⟩ := cons_tokens hvs
  obtain rfl : vs = [] := List.map_eq_nil_iff.mp hvs'
  simp only [List.length_append, List.length_cons] at hn
  obtain ⟨a, hread, ha⟩ := h span n ws (v :: rest) hws (by omega) (stops_cons hv rfl)
  refine ⟨build a span, ?_, ha⟩
  rw [List.cons_append, List.append_assoc]
  exact hbody (by simp) hread (endOfLine_reads hv hrest.ne_nil)

theorem takes_optional {value : Option Expr} {expr : Parser Expr}
    (h : ∀ e ∈ value, Takes expr (e.lexemes 0) (· = .newline) (Rereads e)) :
    Takes (optionalExpr expr) (value.elim [] (Expr.lexemes 0)) (· = .newline)
      (fun value' => value'.map (Expr.strip .literal) =
        value.map (Expr.strip Constant.plain)) := by
  intro n ts rest hts hn hrest
  cases value with
  | none =>
    obtain rfl : ts = [] := List.map_eq_nil_iff.mp hts
    obtain ⟨t, rest, rfl, ht⟩ := hrest
    refine ⟨none, ?_, rfl⟩
    refine Reads.bind Reads.peek ?_
    rw [ht]
    exact Reads.pure none
  | some e =>
    obtain ⟨a, hread, ha⟩ := h e rfl n ts rest hts hn hrest
    obtain ⟨k, ks, hks, hk⟩ := opensWith_lexemes 0 e
    have hkinds : ts.map Token.kind = e.lexemes 0 := hts
    obtain ⟨t, ts, rfl, ht, -⟩ := cons_tokens (hkinds.trans hks)
    refine ⟨some a, ?_, congrArg some ha⟩
    refine Reads.bind Reads.peek ?_
    rw [ht, hk.starts]
    exact Reads.bind hread (Reads.pure _)

theorem keywordLexemes_eq (word : Keyword) (value : Option Expr) :
    keywordLexemes word value = .keyword word :: value.elim [] (Expr.lexemes 0) := by
  cases value <;> rfl

theorem lineReads_return {value : Option Expr} (hvalue : ∀ e ∈ value, Readable e) (span : Span)
    (hd : weight (keywordLexemes .returnKw value) ≤ b) :
    LineReads (exprParsers (b + 1)) (.returnValue value span)
      (keywordLexemes .returnKw value) := by
  have hexprs : ∀ e ∈ value, Takes (exprListOf (exprParsers (b + 1)).expr) (e.lexemes 0)
      (· = .newline) (Rereads e) := by
    rintro e rfl
    rw [keywordLexemes, weight_cons] at hd
    exact takes_exprList _ (hvalue e rfl) (by omega) (by rintro k rfl; decide)
  rw [keywordLexemes_eq]
  refine LineReads.of_keyword (fun _ => optionalExpr (exprListOf (exprParsers (b + 1)).expr))
    .returnValue ?_ ?_
  · intro n span ts a mid rest hne hread hend
    refine Reads.bind Reads.peekToken (Reads.bind (Reads.advance hne) (Reads.bind hread ?_))
    exact Reads.bind (Reads.pure _) (Reads.bind hend (Reads.pure _))
  · intro span
    exact (takes_optional hexprs).mono (fun _ hk => hk) fun value' hvalue' =>
      congrArg (Stmt.returnValue · .synthetic) hvalue'

theorem lineReads_raise {value : Option Expr} (hvalue : ∀ e ∈ value, Readable e) (span : Span)
    (hd : weight (keywordLexemes .raiseKw value) ≤ b) :
    LineReads (exprParsers (b + 1)) (.raise value span) (keywordLexemes .raiseKw value) := by
  have hexprs : ∀ e ∈ value, Takes (exprParsers (b + 1)).expr (e.lexemes 0)
      (· = .newline) (Rereads e) := by
    rintro e rfl
    rw [keywordLexemes, weight_cons] at hd
    exact ((hvalue e rfl).takes_expr (d := b) (by omega)).mono (by rintro k rfl; decide)
      fun _ h => h
  rw [keywordLexemes_eq]
  refine LineReads.of_keyword (fun _ => optionalExpr (exprParsers (b + 1)).expr) .raise ?_ ?_
  · intro n span ts a mid rest hne hread hend
    refine Reads.bind Reads.peekToken (Reads.bind (Reads.advance hne) (Reads.bind hread ?_))
    exact Reads.bind (Reads.pure _) (Reads.bind hend (Reads.pure _))
  · intro span
    exact (takes_optional hexprs).mono (fun _ hk => hk) fun value' hvalue' =>
      congrArg (Stmt.raise · .synthetic) hvalue'

theorem takes_return {s' : Stmt} {stop : Lexeme → Prop} {Q : Stmt → Prop} (h : Q s') :
    Takes (return s' : Parser Stmt) [] stop Q := by
  intro n ts rest hts hn hrest
  obtain rfl : ts = [] := List.map_eq_nil_iff.mp hts
  exact ⟨s', Reads.pure s', h⟩

/-- The statement that consists of the word. -/
def Keyword.statement? : Keyword → Option Stmt
  | .passKw => some .pass
  | .breakKw => some .breakLoop
  | .continueKw => some .continueLoop
  | _ => none

theorem lineReads_word {p : ExprParsers} {word : Keyword} {s : Stmt}
    (h : word.statement? = some s) : LineReads p s [.keyword word] := by
  have hstrip : s.strip .bare = s.strip .plain := by
    cases word <;> cases h <;> rfl
  refine LineReads.of_keyword (fun _ => return s) (fun s _ => s) ?_ fun _ => takes_return hstrip
  intro n span ts a mid rest hne hread hend
  obtain ⟨rfl, rfl⟩ : a = s ∧ mid = ts := by
    have hsame := Except.ok.inj hread
    exact ⟨(Prod.mk.inj hsame).1.symm, (Prod.mk.inj hsame).2.symm⟩
  cases word <;> cases h
  all_goals
    refine Reads.bind Reads.peekToken (Reads.bind (Reads.advance hne) ?_)
    exact Reads.bind (Reads.pure _) (Reads.bind hend (Reads.pure _))

theorem alias_lexemes_ne_nil {a : Alias} {ks : List Lexeme} (hks : ks ≠ []) :
    a.lexemes ks ≠ [] :=
  List.append_ne_nil_of_left_ne_nil hks _

theorem lineReads_importModules {p : ExprParsers} {names : List Alias} (hne : names ≠ [])
    (span : Span) : LineReads p (.importModules names span)
      (.keyword .importKw
        :: separated (names.map fun a => a.lexemes (dottedLexemes (nameParts a.name)))) := by
  obtain ⟨first, others, rfl⟩ := List.exists_cons_of_ne_nil hne
  refine LineReads.of_keyword importModules (fun s _ => s) ?_ ?_
  · intro n span ts a mid rest hne hread hend
    refine Reads.bind Reads.peekToken (Reads.bind (Reads.advance hne) (Reads.bind hread ?_))
    exact Reads.bind hend (Reads.pure _)
  · intro span n ts rest hts hn hrest
    obtain ⟨first', others', mid, hfirst, hothers, hsame⟩ := takes_aliases
      (aliasOf dottedName) (fun a => takes_alias (takes_dottedName a.name))
      (fun a _ => alias_lexemes_ne_nil (dottedLexemes_ne_nil a.name)) n ts rest hts hn hrest
    refine ⟨.importModules (first' :: others') span, ?_, by rw [hsame]; rfl⟩
    exact Reads.bind hfirst (Reads.bind hothers (Reads.pure _))

theorem takes_leadingDots (dots : Nat) : ∀ m, dots < m →
    Takes (leadingDots m) (List.replicate dots (.symbol .dot)) (· ≠ .symbol .dot) (· = dots) := by
  induction dots with
  | zero =>
    intro m hm n ts rest hts hn hrest
    obtain ⟨m, rfl⟩ := Nat.exists_eq_add_one_of_ne_zero (show m ≠ 0 by omega)
    obtain rfl : ts = [] := List.map_eq_nil_iff.mp hts
    obtain ⟨t, rest, rfl, ht⟩ := hrest
    exact ⟨0, Reads.bind (Reads.accept_false ht) (Reads.pure 0), rfl⟩
  | succ dots ih =>
    intro m hm n ts rest hts hn hrest
    obtain ⟨m, rfl⟩ := Nat.exists_eq_add_one_of_ne_zero (show m ≠ 0 by omega)
    rw [List.replicate_succ] at hts
    obtain ⟨t, us, rfl, ht, hus⟩ := cons_tokens hts
    rw [List.length_cons] at hn
    obtain ⟨level, hread, rfl⟩ := ih m (by omega) n us rest hus (by omega) hrest
    refine ⟨level + 1, ?_, rfl⟩
    refine Reads.bind (Reads.accept_true ht (append_ne_nil hrest)) ?_
    exact Reads.bind hread (Reads.pure _)

theorem takes_ownAlias (a : Alias) :
    Takes (aliasOf (return (← identifier "imported name").1)) (a.lexemes [.identifier a.name])
      EndsAlias (· = a) := by
  apply takes_alias
  intro n ts rest hts hn hrest
  obtain ⟨t, us, rfl, ht, hus⟩ := cons_tokens hts
  obtain rfl : us = [] := List.map_eq_nil_iff.mp hus
  exact ⟨a.name, Reads.bind (Reads.identifier ht hrest.ne_nil _) (Reads.pure _), rfl⟩

theorem lineReads_importNames {p : ExprParsers} {level : Nat} {module : Option String}
    {names : List Alias} (hmodule : level = 0 → module ≠ none) (hne : names ≠ []) (span : Span) :
    LineReads p (.importNames level module names span)
      (.keyword .fromKw :: (List.replicate level (.symbol .dot)
        ++ (module.elim [] (fun name => dottedLexemes (nameParts name))
          ++ .keyword .importKw
            :: separated (names.map fun a => a.lexemes [.identifier a.name])))) := by
  obtain ⟨first, others, rfl⟩ := List.exists_cons_of_ne_nil hne
  refine LineReads.of_keyword importNames (fun s _ => s) ?_ ?_
  · intro n span ts a mid rest hne hread hend
    refine Reads.bind Reads.peekToken (Reads.bind (Reads.advance hne) (Reads.bind hread ?_))
    exact Reads.bind hend (Reads.pure _)
  · intro span n ts rest hts hn hrest
    obtain ⟨us, tail, rfl, hus, htail⟩ := split_tokens hts
    obtain ⟨vs, ws, rfl, hvs, hws⟩ := split_tokens htail
    obtain ⟨w, ws, rfl, hw, hws'⟩ := cons_tokens hws
    simp only [List.length_append, List.length_cons] at hn
    obtain ⟨first', others', mid, hfirst, hothers, hsame⟩ := takes_aliases
      (aliasOf (return (← identifier "imported name").1)) takes_ownAlias
      (fun a _ => alias_lexemes_ne_nil (List.cons_ne_nil _ _)) n ws rest hws' (by omega) hrest
    obtain ⟨v, ws, rfl, hv⟩ : ∃ v ws', ws = v :: ws' ∧ v.kind ≠ .symbol .leftParen := by
      rw [List.map_cons, separated_cons] at hws'
      obtain ⟨v, ws, rfl, hv, -⟩ := cons_tokens hws'
      exact ⟨v, ws, rfl, by rw [hv]; exact Lexeme.noConfusion⟩
    have hnext : Stops (· ≠ .symbol .dot) (vs ++ (w :: (v :: ws ++ rest))) := by
      cases module with
      | none =>
        obtain rfl : vs = [] := List.map_eq_nil_iff.mp hvs
        exact stops_cons hw (by decide)
      | some name =>
        obtain ⟨part, parts, hparts⟩ := List.exists_cons_of_ne_nil (nameParts_ne_nil name)
        rw [Option.elim, hparts] at hvs
        obtain ⟨x, vs, rfl, hx, -⟩ := cons_tokens hvs
        exact stops_cons hx Lexeme.noConfusion
    have hdots : level < n := by
      have hle := congrArg List.length hus
      rw [List.length_map, List.length_replicate] at hle
      omega
    obtain ⟨level', hlevel, rfl⟩ := takes_leadingDots level n hdots n us _ hus (by omega) hnext
    refine ⟨.importNames level' module (first' :: others') span, ?_, by rw [hsame]; rfl⟩
    have htokens : us ++ (vs ++ w :: v :: ws) ++ rest =
        us ++ (vs ++ (w :: (v :: ws ++ rest))) := by simp
    rw [htokens]
    refine Reads.bind (Reads.bounded hlevel) ?_
    cases module with
    | none =>
      obtain rfl : vs = [] := List.map_eq_nil_iff.mp hvs
      have hlevel : ¬ ((none : Option String).isNone = true ∧ level' = 0) :=
        fun h => hmodule h.2 rfl
      refine Reads.bind (Reads.isAt _) ?_
      rw [decide_eq_true hw]
      refine Reads.bind (Reads.pure none) ?_
      dsimp only
      rw [if_neg hlevel]
      refine Reads.bind (Reads.expect hw (by simp) _) (Reads.bind (Reads.accept_false hv) ?_)
      exact Reads.bind hfirst (Reads.bind hothers (Reads.bind (Reads.pure _) (Reads.pure _)))
    | some name =>
      have hnamed (name : String) : ¬ ((some name).isNone = true ∧ level' = 0) :=
        fun h => Bool.noConfusion h.1
      obtain ⟨name', hname, rfl⟩ := takes_dottedName name n vs (w :: (v :: ws ++ rest)) hvs
        (by omega) (stops_cons hw (by decide))
      obtain ⟨part, parts, hparts⟩ := List.exists_cons_of_ne_nil (nameParts_ne_nil name')
      rw [Option.elim, hparts] at hvs
      obtain ⟨x, vs, rfl, hx, -⟩ := cons_tokens hvs
      have hnot : x.kind ≠ .keyword .importKw := by
        rw [hx]
        exact Lexeme.noConfusion
      refine Reads.bind (Reads.isAt _) ?_
      rw [decide_eq_false hnot]
      refine Reads.bind hname.map ?_
      dsimp only
      rw [if_neg (hnamed name')]
      refine Reads.bind (Reads.expect hw (by simp) _) (Reads.bind (Reads.accept_false hv) ?_)
      exact Reads.bind hfirst (Reads.bind hothers (Reads.bind (Reads.pure _) (Reads.pure _)))

/-! ## Functions -/

/-- An expression that follows a symbol, if there is one. -/
theorem takes_exprAfter {value : Option Expr} {sign : Symbol} (hvalue : ∀ e ∈ value, Readable e)
    (hd : weight (lexemesAfter sign value) ≤ b) :
    Takes (exprAfter sign (exprParsers (b + 1))) (lexemesAfter sign value)
      (fun k => k.Below 1 ∧ k ≠ .symbol sign)
      (fun value' => value'.map (Expr.strip .literal) =
        value.map (Expr.strip Constant.plain)) := by
  intro n ts rest hts hn hrest
  cases value with
  | none =>
    obtain rfl : ts = [] := List.map_eq_nil_iff.mp hts
    obtain ⟨t, rest, rfl, -, ht⟩ := hrest
    exact ⟨none, Reads.bind (Reads.accept_false ht) (Reads.pure none), rfl⟩
  | some e =>
    rw [lexemesAfter, weight_cons] at hd
    obtain ⟨t, us, rfl, ht, hus⟩ := cons_tokens hts
    rw [List.length_cons] at hn
    obtain ⟨a, hread, ha⟩ := (hvalue e rfl).takes_expr (d := b) (by omega) n us rest hus
      (by omega) (hrest.mono fun _ hk => hk.1)
    refine ⟨some a, ?_, congrArg some ha⟩
    refine Reads.bind (Reads.accept_true ht (append_ne_nil hrest)) ?_
    exact Reads.bind hread (Reads.pure _)

/-- The expressions of the parameter are readable. -/
structure Param.Readable (p : Param) : Prop where
  annotation : ∀ e ∈ p.annotation, Syntax.Readable e
  default : ∀ e ∈ p.default, Syntax.Readable e

/-- What may follow the lexemes of a parameter. -/
def EndsParam (k : Lexeme) : Prop :=
  k = .symbol .comma ∨ k = .symbol .rightParen

/-- The parameters of a function up to the closing parenthesis. -/
theorem takes_paramsAfter {params : List Param} (h : ∀ q ∈ params, q.Readable)
    (hd : ∀ q ∈ params, weight q.lexemes ≤ b) : ∀ m, params.length < m → ∀ saw : Bool,
      (saw = true → ∀ q ∈ params, q.default.isSome = true) →
      params.Pairwise (fun p q => p.default.isSome = true → q.default.isSome = true) →
        Takes (paramsAfter (exprParsers (b + 1)) saw m) (separated (params.map Param.lexemes))
          (· = .symbol .rightParen)
          (fun params' => params'.map (Param.strip .bare) = params.map (Param.strip .plain)) := by
  induction params with
  | nil =>
    intro m hm saw _ _ n ts rest hts hn hrest
    obtain ⟨m, rfl⟩ := Nat.exists_eq_add_one_of_ne_zero (show m ≠ 0 by omega)
    obtain rfl : ts = [] := List.map_eq_nil_iff.mp hts
    obtain ⟨t, rest, rfl, ht⟩ := hrest
    refine ⟨[], ?_, rfl⟩
    refine Reads.bind (Reads.isAt _) ?_
    rw [decide_eq_true ht]
    exact Reads.pure []
  | cons q params ih =>
    intro m hm saw hsaw hpairs n ts rest hts hn hrest
    obtain ⟨m, rfl⟩ := Nat.exists_eq_add_one_of_ne_zero (show m ≠ 0 by omega)
    rw [List.length_cons] at hm
    obtain ⟨hq, hothers⟩ := List.forall_mem_cons.mp h
    obtain ⟨hdq, hdothers⟩ := List.forall_mem_cons.mp hd
    obtain ⟨hfirst, hpairs'⟩ := List.pairwise_cons.mp hpairs
    rw [List.map_cons, separated_cons] at hts
    obtain ⟨us, vs, rfl, hus, hvs⟩ := split_tokens hts
    obtain ⟨u, us, rfl, hu, hus'⟩ := cons_tokens hus
    obtain ⟨as, ds, rfl, has, hds⟩ := split_tokens hus'
    rw [Param.lexemes, weight_cons, weight_append] at hdq
    simp only [List.length_cons, List.length_append] at hn
    have hnext : Stops EndsParam (vs ++ rest) := by
      cases params with
      | nil =>
        obtain rfl : vs = [] := List.map_eq_nil_iff.mp hvs
        exact hrest.mono fun k hk => .inr hk
      | cons q' params =>
        obtain ⟨v, vs, rfl, hv, -⟩ := cons_tokens hvs
        exact stops_cons hv (.inl rfl)
    have hnextDefault : Stops (fun k => k.Below 1 ∧ k ≠ .symbol .colon) (ds ++ (vs ++ rest)) := by
      cases hdefault : q.default with
      | none =>
        rw [hdefault] at hds
        obtain rfl : ds = [] := List.map_eq_nil_iff.mp hds
        exact hnext.mono fun k hk => by rcases hk with rfl | rfl <;> decide
      | some e =>
        rw [hdefault] at hds
        obtain ⟨d, ds, rfl, hd, -⟩ := cons_tokens hds
        exact stops_cons hd (by decide)
    obtain ⟨ annotation, hreadAnnotation, hannotation⟩ := takes_exprAfter hq.annotation
      (b := b) (by omega) n as (ds ++ (vs ++ rest)) has (by omega) hnextDefault
    obtain ⟨default, hreadDefault, hdefault⟩ := takes_exprAfter hq.default
      (b := b) (by omega) n ds (vs ++ rest) hds (by omega)
      (hnext.mono fun k hk => by rcases hk with rfl | rfl <;> decide)
    have hsome : default.isSome = q.default.isSome := by
      rw [← Option.isSome_map (f := Expr.strip .literal), hdefault, Option.isSome_map]
    have hvalid : ¬ (default.isNone = true ∧ saw = true) := by
      rintro ⟨hnone, hsaw'⟩
      have hq' := hsaw hsaw' q List.mem_cons_self
      rw [← hsome] at hq'
      rw [Option.isNone_iff_eq_none] at hnone
      rw [hnone] at hq'
      exact Bool.noConfusion hq'
    have hnot : u.kind ≠ .symbol .rightParen := by
      rw [hu]
      exact Lexeme.noConfusion
    have hbare : Param.strip .bare ⟨q.name, annotation, default, u.span⟩ = q.strip .plain :=
      congrArg₂ (Param.mk q.name · · .synthetic) hannotation hdefault
    have htokens : u :: (as ++ ds) ++ vs ++ rest = u :: (as ++ (ds ++ (vs ++ rest))) := by simp
    have hne : as ++ (ds ++ (vs ++ rest)) ≠ [] := by
      obtain ⟨t, rest, rfl, -⟩ := hrest
      simp
    cases params with
    | nil =>
      obtain rfl : vs = [] := List.map_eq_nil_iff.mp hvs
      obtain ⟨t, rest, rfl, ht⟩ := hrest
      have hcomma : t.kind ≠ .symbol .comma := by
        rw [ht]
        decide
      refine ⟨[⟨q.name, annotation, default, u.span⟩], ?_, congrArg (fun q => [q]) hbare⟩
      rw [htokens]
      refine Reads.bind (Reads.isAt _) ?_
      rw [decide_eq_false hnot]
      refine Reads.bind (Reads.identifier hu hne _) ?_
      refine Reads.bind hreadAnnotation (Reads.bind hreadDefault ?_)
      dsimp only
      rw [if_neg hvalid]
      exact Reads.bind (Reads.accept_false hcomma) (Reads.pure _)
    | cons q' params =>
      obtain ⟨v, vs, rfl, hv, hvs'⟩ := cons_tokens hvs
      rw [List.length_cons] at hn
      have hkinds : vs.map Token.kind = separated ((q' :: params).map Param.lexemes) := by
        rw [List.map_cons, separated_cons]
        exact hvs'
      have hsaw' : (saw || default.isSome) = true →
          ∀ r ∈ q' :: params, r.default.isSome = true := by
        intro hor r hr
        rcases Bool.or_eq_true_iff.mp hor with hsaw' | hdefault
        · exact hsaw hsaw' r (List.mem_cons_of_mem _ hr)
        · exact hfirst r hr (hsome ▸ hdefault)
      obtain ⟨params', hreads, hparams⟩ := ih hothers hdothers m (by omega) _ hsaw' hpairs' n vs
        rest hkinds (by omega) hrest
      refine ⟨⟨q.name, annotation, default, u.span⟩ :: params', ?_,
        congrArg₂ List.cons hbare hparams⟩
      rw [htokens]
      refine Reads.bind (Reads.isAt _) ?_
      rw [decide_eq_false hnot]
      refine Reads.bind (Reads.identifier hu hne _) ?_
      refine Reads.bind hreadAnnotation (Reads.bind hreadDefault ?_)
      dsimp only
      rw [if_neg hvalid]
      refine Reads.bind (Reads.accept_true hv (append_ne_nil hrest)) ?_
      exact Reads.bind hreads (Reads.pure _)

/-- The lexemes of decorators, each on its line. -/
def decoratorLexemes (ds : List Expr) : List Lexeme :=
  ds.flatMap fun d => .symbol .atSign :: (d.lexemes 0 ++ [.newline])

theorem takes_decorators {ds : List Expr} (h : ∀ d ∈ ds, Readable d)
    (hd : ∀ d ∈ ds, weight (d.lexemes 0) ≤ b) : ∀ m, ds.length < m →
      Takes (decorators (exprParsers (b + 1)) m) (decoratorLexemes ds) (· = .keyword .defKw)
        (fun ds' => ds'.map (Expr.strip .literal) = ds.map (Expr.strip Constant.plain)) := by
  induction ds with
  | nil =>
    intro m hm n ts rest hts hn hrest
    obtain ⟨m, rfl⟩ := Nat.exists_eq_add_one_of_ne_zero (show m ≠ 0 by omega)
    obtain rfl : ts = [] := List.map_eq_nil_iff.mp hts
    obtain ⟨t, rest, rfl, ht⟩ := hrest
    have hnot : t.kind ≠ .symbol .atSign := by
      rw [ht]
      decide
    exact ⟨[], Reads.bind (Reads.accept_false hnot) (Reads.pure []), rfl⟩
  | cons d ds ih =>
    intro m hm n ts rest hts hn hrest
    obtain ⟨m, rfl⟩ := Nat.exists_eq_add_one_of_ne_zero (show m ≠ 0 by omega)
    rw [List.length_cons] at hm
    rw [decoratorLexemes, List.flatMap_cons] at hts
    obtain ⟨us, vs, rfl, hus, hvs⟩ := split_tokens hts
    obtain ⟨u, us, rfl, hu, hus'⟩ := cons_tokens hus
    obtain ⟨es, ws, rfl, hes, hws⟩ := split_tokens hus'
    obtain ⟨w, ws, rfl, hw, hws'⟩ := cons_tokens hws
    obtain rfl : ws = [] := List.map_eq_nil_iff.mp hws'
    simp only [List.length_cons, List.length_append] at hn
    obtain ⟨a, hread, ha⟩ := (h d List.mem_cons_self).takes_expr (hd d List.mem_cons_self) n es
      (w :: (vs ++ rest)) hes (by omega) (stops_cons hw (by decide))
    obtain ⟨as, hreads, has⟩ := ih (fun d hd => h d (List.mem_cons_of_mem _ hd))
      (fun d h => hd d (List.mem_cons_of_mem _ h)) m (by omega) n vs rest hvs (by omega) hrest
    -- Another decorator or the keyword comes next, so no empty line is skipped.
    have hskip : Reads skipNewlines n (vs ++ rest) () (vs ++ rest) := by
      have hfirst : Stops (· ≠ .newline) (vs ++ rest) := by
        cases ds with
        | nil =>
          obtain rfl : vs = [] := List.map_eq_nil_iff.mp hvs
          exact hrest.mono fun k hk => by
            rw [hk]
            decide
        | cons d' ds =>
          obtain ⟨v, vs, rfl, hv, -⟩ := cons_tokens hvs
          exact stops_cons hv (by decide)
      obtain ⟨t, ts, heq, ht⟩ := hfirst
      rw [heq]
      have hdrop : (t :: ts).dropWhile (·.kind = .newline) = t :: ts := by
        rw [List.dropWhile_cons_of_neg (by simpa using ht)]
      show Except.ok ((), (t :: ts).dropWhile (·.kind = .newline)) = _
      rw [hdrop]
    have hne : vs ++ rest ≠ [] := append_ne_nil hrest
    refine ⟨a :: as, ?_, congrArg₂ List.cons ha has⟩
    have htokens : u :: (es ++ [w]) ++ vs ++ rest = u :: (es ++ (w :: (vs ++ rest))) := by simp
    rw [htokens]
    refine Reads.bind (Reads.accept_true hu (by simp)) (Reads.bind hread ?_)
    refine Reads.bind (endOfLine_reads hw hne) (Reads.bind hskip ?_)
    exact Reads.bind hreads (Reads.pure _)

theorem takes_loopTarget {target : Expr} (h : Readable target)
    (hs : target.strength = Strength.atom) (hd : weight (target.lexemes 0) ≤ b) :
    Takes (loopTarget (exprParsers b)) (target.lexemes 0) (· = .keyword .inKw)
      (Rereads target) := by
  have hsame : target.lexemes 0 = target.lexemes Strength.atom := by
    rw [Expr.lexemes_of_le (Nat.zero_le _), hs]
  rw [hsame] at hd ⊢
  intro n ts rest hts hn hrest
  obtain ⟨a, hread, ha⟩ := h.takes (l := Strength.atom) (by decide) (Nat.le_refl _) hd n ts rest hts
    hn (hrest.mono fun k hk => by
      rw [hk]
      decide)
  obtain ⟨t, rest, rfl, ht⟩ := hrest
  have hnot : t.kind ≠ .symbol .comma := by
    rw [ht]
    decide
  refine ⟨a, ?_, ha⟩
  refine Reads.bind hread (Reads.bind (Reads.isAt _) ?_)
  rw [decide_eq_false hnot]
  exact Reads.pure a

end StagedScript.Syntax
