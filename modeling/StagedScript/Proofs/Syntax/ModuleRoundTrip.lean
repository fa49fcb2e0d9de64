import StagedScript.Proofs.Syntax.LineLexing
import StagedScript.Proofs.Syntax.StatementAgreement
import StagedScript.Proofs.Syntax.StatementReading
import StagedScript.Proofs.Syntax.Unformatted

/-!
# Printed modules are read back

A module that was read and is printed is read again as the same tree, up to
places, alternatives of alternatives, and blocks without statements, which are
printed as the statement `pass`.  The text has no comments and no formatted
strings, and no match statement without cases or loop target that needs
parentheses is in the tree.
-/

namespace StagedScript.Syntax

open Text StagedScript.Syntax.Parser

/-! ## Trees that look the same in two outlines -/

section Outlines

variable {constant constant' : Constant → Expr}

mutual

/-- An expression whose constants are written equally is written equally. -/
theorem Expr.strip_congr (e : Expr) (h : e.Holds (fun c => constant c = constant' c) fun _ => False) :
    e.strip constant = e.strip constant' := by
  match e, h with
  | .name _ _, _ => rfl
  | .constant c _, h => exact h
  | .tuple items _, h => exact congrArg (Expr.tuple · .synthetic) (stripItems_congr items h)
  | .list items _, h => exact congrArg (Expr.list · .synthetic) (stripItems_congr items h)
  | .dict entries _, h => exact congrArg (Expr.dict · .synthetic) (stripEntries_congr entries h)
  | .member target field _, h =>
    exact congrArg (Expr.member · field .synthetic) (Expr.strip_congr target h.1)
  | .subscript target index _, h =>
    exact congrArg₂ (Expr.subscript · · .synthetic) (Expr.strip_congr target h.1)
      (Expr.strip_congr index h.2)
  | .call callee args _, h =>
    exact congrArg₂ (Expr.call · · .synthetic) (Expr.strip_congr callee h.1)
      (stripItems_congr args h.2)
  | .binary op left right _, h =>
    exact congrArg₂ (Expr.binary op · · .synthetic) (Expr.strip_congr left h.1)
      (Expr.strip_congr right h.2)
  | .unary op operand _, h =>
    exact congrArg (Expr.unary op · .synthetic) (Expr.strip_congr operand h)
  | .conditional condition thenValue elseValue _, h =>
    rw [Expr.strip, Expr.strip, Expr.strip_congr condition h.1, Expr.strip_congr thenValue h.2.1,
      Expr.strip_congr elseValue h.2.2]

theorem stripItems_congr (items : List Expr)
    (h : ItemsHold (fun c => constant c = constant' c) (fun _ => False) items) :
    stripItems constant items = stripItems constant' items := by
  match items, h with
  | [], _ => rfl
  | item :: items, h =>
    exact congrArg₂ List.cons (Expr.strip_congr item h.1) (stripItems_congr items h.2)

theorem stripEntries_congr (entries : List Entry)
    (h : EntriesHold (fun c => constant c = constant' c) (fun _ => False) entries) :
    stripEntries constant entries = stripEntries constant' entries := by
  match entries, h with
  | [], _ => rfl
  | .pair key value :: entries, h =>
    have hentry := congrArg₂ Entry.pair (Expr.strip_congr key h.1.1) (Expr.strip_congr value h.1.2)
    exact congrArg₂ List.cons hentry (stripEntries_congr entries h.2)

end

/-- The expressions of the statement are written equally whichever way constants are. -/
def Requirements.alike (constant constant' : Constant → Expr) : Requirements :=
  ⟨fun e => e.strip constant = e.strip constant', fun _ => True, fun _ => True⟩

theorem strip_optional {value : Option Expr}
    (h : ∀ e ∈ value, e.strip constant = e.strip constant') :
    value.map (Expr.strip constant) = value.map (Expr.strip constant') :=
  Option.map_congr h

variable (o : Outline)

theorem Param.strip_congr {p : Param} (hp : p.Meets (.alike constant constant')) :
    p.strip { o with constant := constant } = p.strip { o with constant := constant' } :=
  congrArg₂ (Param.mk p.name · · .synthetic) (strip_optional hp.annotation)
    (strip_optional hp.default)

theorem FunctionHeader.strip_congr {h : FunctionHeader}
    (hh : h.Meets (.alike constant constant')) :
    h.strip { o with constant := constant } = h.strip { o with constant := constant' } := by
  have hdecorators : h.decorators.map (Expr.strip constant) =
      h.decorators.map (Expr.strip constant') := List.map_congr_left hh.decorators
  have hparams := List.map_congr_left fun p hp => Param.strip_congr o (hh.params p hp)
  simp only [FunctionHeader.strip, hdecorators, hparams, strip_optional hh.returnType]

mutual

/-- A statement whose expressions are written equally is written equally. -/
theorem Stmt.strip_congr (s : Stmt) (hs : s.Meets (.alike constant constant')) :
    s.strip { o with constant := constant } = s.strip { o with constant := constant' } := by
  match s, hs with
  | .function header body, hs =>
    exact congrArg₂ Stmt.function (FunctionHeader.strip_congr o hs.1) (stripBlock_congr body hs.2)
  | .branch condition thenBlock none span, hs =>
    exact congrArg₂ (Stmt.branch · · none .synthetic) hs.1 (stripBlock_congr thenBlock hs.2.1)
  | .branch condition thenBlock (some block) span, hs =>
    have hcondition : condition.strip constant = condition.strip constant' := hs.1
    rw [Stmt.strip_branch, Stmt.strip_branch, hcondition, stripBlock_congr thenBlock hs.2.1,
      Option.map_some, Option.map_some, stripBlock_congr block hs.2.2]
  | .whileLoop condition body _, hs =>
    exact congrArg₂ (Stmt.whileLoop · · .synthetic) hs.1 (stripBlock_congr body hs.2)
  | .forLoop target iterable body _, hs =>
    have htarget : target.strip constant = target.strip constant' := hs.1
    have hiterable : iterable.strip constant = iterable.strip constant' := hs.2.1
    rw [Stmt.strip, Stmt.strip, htarget, hiterable, stripBlock_congr body hs.2.2]
  | .matchOn subject cases _, hs =>
    exact congrArg₂ (Stmt.matchOn · · .synthetic) hs.1 (stripCases_congr cases hs.2)
  | .returnValue value _, hs => exact congrArg (Stmt.returnValue · .synthetic) (strip_optional hs)
  | .raise value _, hs => exact congrArg (Stmt.raise · .synthetic) (strip_optional hs)
  | .assign target value _, hs => exact congrArg₂ (Stmt.assign · · .synthetic) hs.1.1 hs.2
  | .augment op target value _, hs =>
    exact congrArg₂ (Stmt.augment op · · .synthetic) hs.2.1.1 hs.2.2
  | .expr value, hs => exact congrArg Stmt.expr hs
  | .importModules _ _, _ | .importNames _ _ _ _, _ | .comment _, _ | .pass, _ | .breakLoop, _
  | .continueLoop, _ => rfl

theorem stripBlock_congr (body : List Stmt) (h : StmtsMeet (.alike constant constant') body) :
    stripBlock { o with constant := constant } body =
      stripBlock { o with constant := constant' } body := by
  match body, h with
  | [], _ => rfl
  | s :: stmts, h => exact congrArg₂ List.cons (Stmt.strip_congr s h.1) (stripStmts_congr stmts h.2)

theorem stripStmts_congr (stmts : List Stmt) (h : StmtsMeet (.alike constant constant') stmts) :
    stripStmts { o with constant := constant } stmts =
      stripStmts { o with constant := constant' } stmts := by
  match stmts, h with
  | [], _ => rfl
  | s :: stmts, h => exact congrArg₂ List.cons (Stmt.strip_congr s h.1) (stripStmts_congr stmts h.2)

theorem stripCases_congr (cases : List Case) (h : CasesMeet (.alike constant constant') cases) :
    stripCases { o with constant := constant } cases =
      stripCases { o with constant := constant' } cases := by
  match cases, h with
  | [], _ => rfl
  | .on pattern body :: cases, h =>
    have hcase := congrArg (Case.on (o.pattern pattern)) (stripBlock_congr body h.1.2)
    exact congrArg₂ List.cons hcase (stripCases_congr cases h.2)

end

end Outlines

/-- No comments occur, and the doubles are finite, have no sign and are read back. -/
def Vocabulary.numbers : Vocabulary :=
  ⟨fun x => Decimal.isFinite x = true ∧ Decimal.ReadsBack x ∧ Decimal.isNegative x = false,
    fun _ => False⟩

/-- A number of the vocabulary is read as itself. -/
theorem Constant.plain_of_literal {c : Constant} (h : Vocabulary.numbers.Literal c) :
    c.plain = .literal c := by
  match c, h with
  | .int n, h =>
    have hnot : ¬ (n < 0 ∧ n ≠ Int64.minValue) := fun hn => hn.2 (h hn.1)
    exact if_neg hnot
  | .float x, ⟨hfinite, _, hpos⟩ =>
    obtain ⟨b, hd⟩ := Decimal.decode_of_isFinite hfinite
    have hb : b.negative = false := by simpa [Decimal.isNegative, hd] using hpos
    simp [Constant.plain, hd, hb]
  | .none, _ | .bool _, _ | .string _, _ => rfl

theorem Vocabulary.numbers_legible : numbers.requirements.Implies .legible where
  expr e h := by
    refine Expr.Holds.mono (fun c hc => ?_) (fun _ h => h.elim) e h
    match c, hc with
    | .float x, hc => exact hc.2.1
    | .none, _ | .bool _, _ | .int _, _ | .string _, _ => trivial
  pattern q h := by
    refine Pattern.Holds.mono (fun c hc => ?_) q h
    match c, hc with
    | .float _, ⟨y, hy, .inl hx⟩ =>
      subst hx
      exact ⟨hy.2.1, fun x hx => Constant.float.inj hx ▸ hy.1⟩
    | .float _, ⟨y, hy, .inr hx⟩ =>
      subst hx
      obtain ⟨b, hb⟩ := Decimal.decode_of_isFinite hy.1
      have hfinite : Decimal.isFinite (-y) = true := Decimal.isFinite_neg hy.1
      exact ⟨hy.2.1.neg hb, fun x hx => Constant.float.inj hx ▸ hfinite⟩
    | .none, _ | .bool _, _ | .int _, _ | .string _, _ =>
      exact ⟨trivial, fun _ hx => Constant.noConfusion hx⟩
  comment _ h := h

theorem Vocabulary.numbers_alike : numbers.requirements.Implies (.alike Constant.plain .literal) where
  expr e h := Expr.strip_congr e (Expr.Holds.mono (fun _ hc => Constant.plain_of_literal hc)
    (fun _ h => h) e h)
  pattern _ _ := trivial
  comment _ _ := trivial

theorem weight_of_unformatted {ks : List Lexeme} (h : unformatted ks = true) :
    weight ks = ks.length := by
  induction ks with
  | nil => rfl
  | cons k ks ih =>
    rw [unformatted_cons, Bool.and_eq_true] at h
    have hk : k.weight = 1 := by
      match k, h.1 with
      | .identifier _, _ | .integer _, _ | .float _, _ | .string _, _ | .keyword _, _ | .symbol _, _
      | .comment _, _ | .newline, _ | .indent, _ | .dedent, _ | .eof, _ => rfl
    rw [weight_cons, hk, ih h.2, List.length_cons, Nat.add_comm]

/-- No row counts more than there are lexemes. -/
theorem within_rowKinds {rows : List Row} (h : rows.all Row.unformatted = true) (current : Nat) :
    Within (rowKinds current rows).length rows := by
  induction rows generalizing current with
  | nil => exact fun _ hrow => absurd hrow List.not_mem_nil
  | cons row rows ih =>
    rw [List.all_cons, Bool.and_eq_true] at h
    intro row' hrow
    cases row with
    | comment text =>
      rcases List.mem_cons.mp hrow with rfl | hrow
      · exact Nat.zero_le _
      · exact Nat.le_succ_of_le (ih h.2 current row' hrow)
    | code level ks =>
      simp only [rowKinds, List.length_append, List.length_cons]
      rcases List.mem_cons.mp hrow with rfl | hrow
      · have hweight : weight ks = ks.length := weight_of_unformatted h.1
        show weight ks ≤ _
        omega
      · have hle := ih h.2 level row' hrow
        omega

/-! ## Modules -/

/-- The lexeme can be printed and read again: it is no comment, no formatted string and no double
that is not finite. -/
def Lexeme.IsLasting : Lexeme → Prop
  | .float x => Decimal.isFinite x = true
  | .comment _ | .formatted _ => False
  | _ => True

/-- The text contains no comments, no formatted strings and no doubles that are not finite. -/
def IsLastingText (source : String) : Prop :=
  ∀ ts, tokens source = .ok ts → ∀ t ∈ ts, t.kind.IsLasting

/-- What holds of the kinds of tokens holds of each kind. -/
theorem forall_of_kinds {ts : List Token} {ks : List Lexeme} (h : ts.map Token.kind = ks)
    {P : Lexeme → Prop} (hks : ∀ k ∈ ks, P k) : ∀ t ∈ ts, P t.kind :=
  fun _ ht => hks _ (h ▸ List.mem_map_of_mem ht)

/-- The digits that are printed for a double in the text are read as the double. -/
def DoublesReadBack (source : String) : Prop :=
  ∀ ts, tokens source = .ok ts → ∀ t ∈ ts, ∀ x, t.kind = .float x → Decimal.ReadsBack x

theorem Vocabulary.numbers_admits {k : Lexeme} (hproper : k.Proper) (hlasting : k.IsLasting)
    (hback : ∀ x, k = .float x → Decimal.ReadsBack x) : numbers.Admits k := by
  cases k with
  | identifier _ => exact hproper
  | float x => exact ⟨hlasting, hback x rfl, hproper⟩
  | comment _ | formatted _ => exact hlasting.elim
  | _ => trivial

/-- A text with the lexemes of a module whose statements can be read and whose comments stay is read
as the plain form of the module. -/
theorem readModule_of_rows {text : String} {ts : List Token} {body : Block}
    (hts : tokens text = .ok ts) (hkinds : ts.map Token.kind = rowKinds 0 (bodyRows 0 body))
    (hreadable : StmtsMeet .readable body) (hrows : (bodyRows 0 body).all Row.unformatted = true)
    (hregular : areRegular body = true) (htidy : areTidy body = true) :
    ∃ again, readModule text = .ok again ∧ bareBlock again = stripBlock .plain body := by
  obtain ⟨-, hlength⟩ := tokens_complete hts
  -- The text is longer than its lexemes are many, so the depth of nesting suffices.
  obtain ⟨b, hb⟩ : ∃ b, nestingBound text = b + 1 :=
    ⟨_, (Nat.succ_pred_eq_of_pos (Nat.mul_pos (by decide) (Nat.succ_pos _))).symm⟩
  have hmany : ts.length ≤ b := by
    rw [nestingBound] at hb
    omega
  have hwithin : Within b (bodyRows 0 body) := by
    intro row hrow
    have hle := within_rowKinds hrows 0 row hrow
    rw [← hkinds, List.length_map] at hle
    omega
  have hall : ts.map Token.kind = rowKinds 0 (bodyRows 0 body ++ []) := by
    rw [hkinds, List.append_nil]
  obtain ⟨again, rest, hread, -, -, hsame⟩ := Module.reads body hreadable hregular htidy .eof 0 []
    (.inr rfl) hwithin trivial ⟨[], rfl⟩ (b + 1) (ts.length + 1) (ts.length + 1) ts hall (by omega)
    (by omega) (by omega)
  refine ⟨again, ?_, (stripBlock_bare again).trans hsame⟩
  rw [readModule_of_tokens hts, hb]
  have hmodule : moduleBody (b + 1) (ts.length + 1) ts = .ok (again, rest) := hread
  rw [hmodule]
  rfl

/-- A module whose statements can be read and whose comments stay is read from its printed text in
its plain form. -/
theorem readModule_printModule_tidy {body : Block} (hreadable : StmtsMeet .readable body)
    (hrows : (bodyRows 0 body).all Row.unformatted = true) (hregular : areRegular body = true)
    (htidy : areTidy body = true) :
    ∃ again, readModule (printModule {} body) = .ok again ∧
      bareBlock again = stripBlock .plain body := by
  have hworded : StmtsMeet .worded body :=
    StmtsMeet.mono Requirements.worded_of_readable body hreadable
  obtain ⟨ts, hts, hkinds⟩ := tokens_printModule (show 0 < (Layout.mk 4 true).indentWidth by decide)
    hworded
  exact readModule_of_rows hts hkinds hreadable hrows hregular htidy

/-- A module without comments whose statements can be read is read from its printed text in its plain
form. -/
theorem readModule_printModule {body : Block} (hlegible : StmtsMeet .legible body)
    (hrows : (bodyRows 0 body).all Row.unformatted = true) (hregular : areRegular body = true) :
    ∃ again, readModule (printModule {} body) = .ok again ∧
      bareBlock again = stripBlock .plain body :=
  readModule_printModule_tidy (StmtsMeet.mono Requirements.readable_of_legible body hlegible) hrows
    hregular (areTidy_of_legible body hlegible)

/-! ## Regular trees without places -/

theorem Expr.strength_bare (e : Expr) : e.bare.strength = e.strength := by
  cases e with
  | constant c _ => cases c <;> rfl
  | unary op _ _ => cases op <;> rfl
  | _ => rfl

mutual

/-- Whether a tree is regular does not depend on places. -/
theorem Stmt.isRegular_bare (s : Stmt) : (s.strip .bare).isRegular = s.isRegular := by
  match s with
  | .function _ body => exact areRegular_bare body
  | .branch condition thenBlock none _ => exact congrArg (· && true) (areRegular_bare thenBlock)
  | .branch condition thenBlock (some block) _ =>
    exact congrArg₂ (· && ·) (areRegular_bare thenBlock) (areRegular_bare block)
  | .whileLoop _ body _ => exact areRegular_bare body
  | .forLoop target _ body _ =>
    exact congrArg₂ (fun n b => n == Strength.atom && b) target.strength_bare (areRegular_bare body)
  | .matchOn _ [] _ => rfl
  | .matchOn _ (.on pattern body :: cases) _ => exact areRegularCases_bare (.on pattern body :: cases)
  | .returnValue _ _ | .raise _ _ | .assign _ _ _ | .augment _ _ _ _ | .importModules _ _
  | .importNames _ _ _ _ | .expr _ | .comment _ | .pass | .breakLoop | .continueLoop => rfl

theorem areRegular_bare (body : Block) : areRegular (bareBlock body) = areRegular body := by
  match body with
  | [] => rfl
  | s :: stmts => exact congrArg₂ (· && ·) s.isRegular_bare (areRegular_bareStmts stmts)

theorem areRegular_bareStmts (stmts : List Stmt) :
    areRegular (stripStmts .bare stmts) = areRegular stmts := by
  match stmts with
  | [] => rfl
  | s :: stmts => exact congrArg₂ (· && ·) s.isRegular_bare (areRegular_bareStmts stmts)

theorem areRegularCases_bare (cases : List Case) :
    areRegularCases (stripCases .bare cases) = areRegularCases cases := by
  match cases with
  | [] => rfl
  | .on _ body :: cases =>
    exact congrArg₂ (· && ·) (areRegular_bare body) (areRegularCases_bare cases)

end

/-- A module that was read and is printed is read as the same tree, up to places, alternatives of
alternatives and blocks without statements. -/
theorem reprinted_module_reads_back {source : String} {body : Block} (hlasting : IsLastingText source)
    (hdoubles : DoublesReadBack source) (hread : readModule source = .ok body)
    (hregular : areRegular body = true) :
    ∃ again, readModule (printModule {} body) = .ok again ∧
      bareBlock again = stripBlock .unsigned body := by
  have hbody : StmtsMeet Vocabulary.numbers.requirements body :=
    meets_of_readModule hread fun ts hts t ht hproper =>
      Vocabulary.numbers_admits hproper (hlasting ts hts t ht) (hdoubles ts hts t ht)
  obtain ⟨again, hagain, hsame⟩ :=
    readModule_printModule (StmtsMeet.mono Vocabulary.numbers_legible body hbody)
      (Vocabulary.numbers.unformatted_bodyRows hbody) hregular
  refine ⟨again, hagain, hsame.trans ?_⟩
  exact stripBlock_congr .plain body (StmtsMeet.mono Vocabulary.numbers_alike body hbody)

/-- A loop that assigns a double. -/
theorem reprinted_module_reads_back_loop : ∃ body, IsLastingText "for x in y:\n    z = 0.5\n" ∧
    DoublesReadBack "for x in y:\n    z = 0.5\n" ∧
    readModule "for x in y:\n    z = 0.5\n" = .ok body ∧ areRegular body = true ∧
    ∃ again, readModule (printModule {} body) = .ok again ∧
      bareBlock again = stripBlock .unsigned body := by
  have hdecode : Decimal.decode 0.5 = .finite ⟨false, 2 ^ 52, -53⟩ := by decide +kernel
  have hfinite : Decimal.isFinite 0.5 = true := by rw [Decimal.isFinite, hdecode]
  have hback : Decimal.ReadsBack 0.5 := by
    intro b hb
    rw [hdecode] at hb
    obtain rfl := Decimal.Parts.finite.inj hb
    decide +kernel
  have hname {name : String} (h : isName name = true) : (Expr.named name).Legible := h
  have hlegible : StmtsMeet .legible [.forLoop (.named "x") (.named "y")
      [.assign (.named "z") (.literal (.float 0.5)) .synthetic] .synthetic] :=
    ⟨⟨hname (by decide +kernel), hname (by decide +kernel),
      ⟨⟨hname (by decide +kernel), rfl⟩, hback⟩, trivial⟩, trivial⟩
  have htext : printModule {} [.forLoop (.named "x") (.named "y")
      [.assign (.named "z") (.literal (.float 0.5)) .synthetic] .synthetic] =
      "for x in y:\n    z = 0.5\n" := by decide +kernel
  obtain ⟨ts, hts, hkinds⟩ := tokens_printModule (show 0 < (Layout.mk 4 true).indentWidth by decide)
    (StmtsMeet.mono Requirements.worded_of_legible _ hlegible)
  obtain ⟨body, hread, hbody⟩ := readModule_printModule hlegible rfl rfl
  rw [htext] at hts hread
  have hregular : areRegular body = true := by
    rw [← areRegular_bare, hbody]
    rfl
  have hall : ∀ t ∈ ts, t.kind.IsLasting ∧ ∀ x, t.kind = .float x → Decimal.ReadsBack x := by
    have hkinds : ts.map Token.kind = [.keyword .forKw, .identifier "x", .keyword .inKw,
        .identifier "y", .symbol .colon, .newline, .indent, .identifier "z", .symbol .eq,
        .float 0.5, .newline, .dedent, .eof] :=
      hkinds.trans (by decide +kernel)
    refine forall_of_kinds hkinds
      (P := fun k => k.IsLasting ∧ ∀ x, k = .float x → Decimal.ReadsBack x) ?_
    simp [Lexeme.IsLasting, hfinite, hback]
  have hlasting : IsLastingText "for x in y:\n    z = 0.5\n" := by
    intro us hus t ht
    obtain rfl := Except.ok.inj (hts.symm.trans hus)
    exact (hall t ht).1
  have hdoubles : DoublesReadBack "for x in y:\n    z = 0.5\n" := by
    intro us hus t ht
    obtain rfl := Except.ok.inj (hts.symm.trans hus)
    exact (hall t ht).2
  exact ⟨body, hlasting, hdoubles, hread, hregular,
    reprinted_module_reads_back hlasting hdoubles hread hregular⟩

/-- A text without statements is printed as the statement `pass`, which is another tree. -/
theorem empty_module_gains_pass : IsLastingText "" ∧ DoublesReadBack "" ∧ readModule "" = .ok [] ∧
    ¬ ∃ again, readModule (printModule {} []) = .ok again ∧
      stripBlock { Outline.unsigned with emptyBlock := [] } again =
        stripBlock { Outline.unsigned with emptyBlock := [] } [] := by
  obtain ⟨ts, hts, hkinds⟩ := tokens_of_lexes (Lexer.lexes_end_of_line (l := Lexer.start "") rfl rfl)
  have hall : ∀ t ∈ ts, t.kind = .eof :=
    forall_of_kinds hkinds fun _ hk => List.mem_singleton.mp hk
  refine ⟨fun us hus t ht => ?_, fun us hus t ht x hx => ?_, ?_, ?_⟩
  · obtain rfl := Except.ok.inj (hts.symm.trans hus)
    rw [hall t ht]
    trivial
  · obtain rfl := Except.ok.inj (hts.symm.trans hus)
    rw [hall t ht] at hx
    exact Lexeme.noConfusion hx
  · obtain ⟨⟨kind, span⟩, rest, rfl, rfl, hrest⟩ := List.map_eq_cons_iff.mp hkinds
    obtain rfl : rest = [] := List.map_eq_nil_iff.mp hrest
    rw [readModule_of_tokens hts]
    rfl
  · rintro ⟨again, hagain, hsame⟩
    obtain ⟨again', hagain', hpass⟩ := @readModule_printModule [] trivial rfl rfl
    obtain rfl := Except.ok.inj (hagain.symm.trans hagain')
    cases again with
    | nil => exact absurd hpass (List.cons_ne_nil _ _).symm
    | cons s stmts => exact absurd hsame (List.cons_ne_nil _ _)

end StagedScript.Syntax
