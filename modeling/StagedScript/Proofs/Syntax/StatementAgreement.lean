import StagedScript.Proofs.Syntax.ExpressionAgreement

/-!
# Two runs of the statement parsers

Twins of tokens are read as the same statements up to places, and what is read
is well formed.  Two texts whose tokens are twins are therefore both read, as the
same module up to places, or both refused.
-/

namespace StagedScript.Syntax

open Text

variable {v : Vocabulary} {m : Nat}

/-! ## Patterns -/

/-- The same pattern up to places, of the vocabulary. -/
structure PatternTwin (v : Vocabulary) (q q' : Pattern) : Prop where
  same : q'.bare = q.bare
  formed : q.Holds v.SignedLiteral

theorem barePatterns_of_twins {items items' : List Pattern}
    (h : List.Forall₂ (PatternTwin v) items items') :
    barePatterns items' = barePatterns items ∧ PatternsHold v.SignedLiteral items := by
  induction h with
  | nil => exact ⟨rfl, trivial⟩
  | cons hfirst _ ih => exact ⟨congrArg₂ List.cons hfirst.same ih.1, hfirst.formed, ih.2⟩

theorem PatternTwin.sequence {items items' : List Pattern}
    (h : List.Forall₂ (PatternTwin v) items items') :
    PatternTwin v (.sequence items) (.sequence items') :=
  ⟨congrArg Pattern.sequence (barePatterns_of_twins h).1, (barePatterns_of_twins h).2⟩

/-- The same name with a dot. -/
structure MemberTwin (e e' : Expr) : Prop where
  same : e'.bare = e.bare
  dotted : e.IsPattern fun _ => False

theorem MemberTwin.member {e e' : Expr} {field : String} (hsame : e'.bare = e.bare)
    (he : e.IsDotted) (hfield : isName field = true) (span span' : Span) :
    MemberTwin (.member e field span) (.member e' field span') :=
  ⟨congrArg (Expr.member · field .synthetic) hsame, he, hfield⟩

theorem MemberTwin.isDotted {e e' : Expr} (h : MemberTwin e e') : e.IsDotted := by
  match e, h.dotted with
  | .member _ _ _, h => exact h

theorem MemberTwin.pattern {e e' : Expr} (h : MemberTwin e e') :
    PatternTwin v (.value e) (.value e') := by
  refine ⟨congrArg Pattern.value h.same, ?_⟩
  match e, h.dotted with
  | .member _ _ _, h => exact h

theorem LiteralTwin.pattern {e e' : Expr} (h : LiteralTwin v e e') :
    PatternTwin v (.value e) (.value e') := by
  obtain ⟨c, span, span', rfl, rfl, hc⟩ := h
  refine ⟨rfl, ?_⟩
  match c, hc with
  | .float x, hx => exact ⟨x, hx, .inl rfl⟩
  | .none, _ | .bool _, _ | .int _, _ | .string _, _ => trivial

namespace Parser

variable {heads : Lexeme → Prop} {p p' : ExprParsers}

theorem agree_fieldsAfter : ∀ n m', m' ≤ n → ∀ e e', MemberTwin e e' →
    Agree v heads m' MemberTwin (fun _ => 0) (fieldsAfter n e) (fieldsAfter n e') := by
  intro n
  induction n generalizing heads with
  | zero => exact fun m' hn _ _ _ => .zero hn
  | succ n ih =>
    intro m' hn e e' he
    refine .acceptSymbol_bind ?_ (.pure he rfl)
    refine .identifier_bind fun field span span' hfield => ?_
    exact ih (m' - 1 - 1) (by omega) _ _ (.member he.same he.isDotted hfield span span')

/-- A dotted name of which the first part was taken. -/
theorem agree_dotted {name : String} (hname : isName name = true) (hne : name ≠ "_")
    (span span' : Span) : ∀ n m', m' ≤ n → Agree v (· = .symbol .dot) m' MemberTwin (fun _ => 0)
      (fieldsAfter n (.name name span)) (fieldsAfter n (.name name span')) := by
  intro n m' hn
  cases n with
  | zero => exact .zero hn
  | succ n =>
    refine .acceptSymbol_bind ?_ (.vacuous fun k hk => hk.2 hk.1)
    refine .identifier_bind fun field place place' hfield => ?_
    have htwin : MemberTwin (.member (.name name span) field place)
        (.member (.name name span') field place') := ⟨rfl, ⟨hname, hne⟩, hfield⟩
    exact agree_fieldsAfter n (m' - 1 - 1) (by omega) _ _ htwin

theorem agree_negativePattern (span span' : Span) :
    Agree v heads m (PatternTwin v) (fun _ => 0) (negativePattern span) (negativePattern span') := by
  refine .advance_any_bind fun k place place' hadmits => ?_
  cases k with
  | integer magnitude =>
    by_cases hle : magnitude ≤ Nat.pow 2 63
    · dsimp only
      rw [if_pos hle, if_pos hle]
      exact .pure ⟨rfl, trivial⟩ rfl
    · dsimp only
      rw [if_neg hle, if_neg hle]
      exact .invalid _ _ _
  | float x => exact .pure ⟨rfl, x, hadmits, .inr rfl⟩ rfl
  | _ => exact .invalid _ _ _

theorem agree_bracketPattern {inner inner' : Parser Pattern} (stop : Symbol)
    (hinner : Agree v anyHead m (PatternTwin v) (fun _ => 1) inner inner') :
    Agree v heads m (PatternTwin v) (fun _ => 0) (bracketPattern inner stop)
      (bracketPattern inner' stop) := by
  refine (Agree.bounded fun n m' hn hm => agree_itemsBefore hinner stop n m' hn hm).bind
    fun read read' hread => ?_
  obtain ⟨items, comma⟩ := read
  obtain ⟨items', comma'⟩ := read'
  obtain ⟨hitems, rfl⟩ := hread
  refine .expect_bind Lexeme.noConfusion fun _ _ _ => ?_
  cases hitems with
  | nil => exact .pure (.sequence .nil) rfl
  | cons hfirst hothers =>
    cases hothers with
    | nil =>
      dsimp only
      split
      · exact .pure hfirst rfl
      · exact .pure (.sequence (.cons hfirst .nil)) rfl
    | cons hsecond hmore => exact .pure (.sequence (.cons hfirst (.cons hsecond hmore))) rfl

theorem agree_closedPattern {inner inner' : Parser Pattern}
    (hinner : Agree v anyHead m (PatternTwin v) (fun _ => 1) inner inner') :
    Agree v heads (m + 1) (PatternTwin v) (fun _ => 1) (closedPattern p inner)
      (closedPattern p' inner') := by
  refine .peekToken_bind fun k span span' _ => ?_
  have hliteral {k : Lexeme} (hk : k.isLiteral = true) : Agree v (· = k) (m + 1) (PatternTwin v)
      (fun _ => 1) (do return .value (← atom p)) (do return .value (← atom p')) :=
    (agree_literal hk).bind fun _ _ he => .pure he.pattern rfl
  cases k with
  | identifier name =>
    refine .peekSecond_advance_bind Lexeme.noConfusion fun second _ _ hname => ?_
    by_cases hwild : name = "_"
    · rw [if_pos hwild, if_pos hwild]
      exact .pure ⟨rfl, trivial⟩ rfl
    rw [if_neg hwild, if_neg hwild]
    by_cases hdot : second = .symbol .dot
    · subst hdot
      refine (Agree.bounded fun n m' hn _ => agree_dotted hname hwild span span' n m' hn).bind
        fun e e' he => ?_
      exact .pure he.pattern rfl
    · rw [if_neg fun heq => hdot (Option.some.inj heq), if_neg fun heq => hdot (Option.some.inj heq)]
      exact .pure ⟨rfl, hname, hwild⟩ rfl
  | integer _ | float _ | string _ => exact hliteral rfl
  | keyword word =>
    cases word with
    | trueKw | falseKw | noneKw => exact hliteral rfl
    | _ => exact .unexpected _
  | symbol sign =>
    cases sign with
    | leftParen =>
      exact .advance_bind Lexeme.noConfusion fun _ _ _ => agree_bracketPattern .rightParen hinner
    | leftBracket =>
      exact .advance_bind Lexeme.noConfusion fun _ _ _ => agree_bracketPattern .rightBracket hinner
    | minus =>
      exact .advance_bind Lexeme.noConfusion fun _ _ _ => agree_negativePattern span span'
    | _ => exact .unexpected _
  | _ => exact .unexpected _

theorem agree_orPattern {inner inner' : Parser Pattern}
    (hinner : Agree v anyHead m (PatternTwin v) (fun _ => 1) inner inner') :
    Agree v heads (m + 1) (PatternTwin v) (fun _ => 1) (orPattern p inner) (orPattern p' inner') := by
  have hclosed {heads : Lexeme → Prop} : Agree v heads (m + 1) (PatternTwin v) (fun _ => 1)
      (closedPattern p inner) (closedPattern p' inner') := agree_closedPattern hinner
  refine hclosed.bind fun first first' hfirst => ?_
  refine .isAt_bind ?_ (.pure hfirst rfl)
  refine (Agree.bounded fun n m' hn hm =>
    agree_itemsAfter_cons hclosed .pipe n m' hn (by omega)).bind fun others others' hothers => ?_
  obtain ⟨hsame, hformed⟩ := barePatterns_of_twins (.cons hfirst hothers.1)
  refine .pure ⟨congrArg Pattern.alternatives hsame, ?_, hformed⟩ rfl
  have hpos := List.length_pos_iff.mpr hothers.2
  rw [List.length_cons]
  omega

/-- Patterns that are read within depths not below the number of tokens. -/
theorem agree_patternWithin : ∀ m' n n', m' ≤ n → m' ≤ n' →
    Agree v heads m' (PatternTwin v) (fun _ => 1) (patternWithin p n) (patternWithin p' n') := by
  intro m'
  induction m' generalizing heads with
  | zero => exact fun _ _ _ _ => .zero (Nat.le_refl 0)
  | succ m' ih =>
    intro n n' hn hn'
    obtain ⟨n, rfl⟩ := Nat.exists_eq_add_one_of_ne_zero (show n ≠ 0 by omega)
    obtain ⟨n', rfl⟩ := Nat.exists_eq_add_one_of_ne_zero (show n' ≠ 0 by omega)
    exact agree_orPattern (ih n n' (by omega) (by omega))

theorem agree_casePattern :
    Agree v heads m (PatternTwin v) (fun _ => 1) (casePattern p) (casePattern p') := by
  have hpattern {heads : Lexeme → Prop} : Agree v heads m (PatternTwin v) (fun _ => 1)
      (bounded (patternWithin p)) (bounded (patternWithin p')) :=
    .bounded fun n m' hn _ => agree_patternWithin m' n n hn hn
  refine hpattern.bind fun first first' hfirst => ?_
  refine .isAt_bind ?_ (.pure hfirst rfl)
  refine (Agree.bounded fun n m' hn hm =>
    agree_itemsAfter hpattern .comma _ n m' hn (by omega)).bind fun others others' hothers => ?_
  exact .pure (.sequence (.cons hfirst hothers)) rfl

end Parser

/-! ## Statements -/

/-- The same statement up to places, of the vocabulary. -/
structure StmtTwin (v : Vocabulary) (s s' : Stmt) : Prop where
  same : s'.strip .bare = s.strip .bare
  formed : s.Meets v.requirements

/-- The same block up to places, of the vocabulary. -/
structure BlockTwin (v : Vocabulary) (body body' : Block) : Prop where
  same : bareBlock body' = bareBlock body
  formed : StmtsMeet v.requirements body

theorem blockTwin_of_twins {body body' : Block} (h : List.Forall₂ (StmtTwin v) body body') :
    BlockTwin v body body' := by
  have hboth : stripStmts .bare body' = stripStmts .bare body ∧ StmtsMeet v.requirements body := by
    induction h with
    | nil => exact ⟨rfl, trivial⟩
    | cons hfirst _ ih => exact ⟨congrArg₂ List.cons hfirst.same ih.1, hfirst.formed, ih.2⟩
  exact ⟨by rw [bareBlock, bareBlock, stripBlock_bare, stripBlock_bare, hboth.1], hboth.2⟩

/-- The same parameter up to places, of the vocabulary. -/
structure ParamTwin (v : Vocabulary) (p p' : Param) : Prop where
  same : p'.strip .bare = p.strip .bare
  formed : p.Meets v.requirements

/-- The same value up to places, or none. -/
theorem optional_of_twins {value value' : Option Expr} (h : Option.Rel (ExprTwin v) value value') :
    value'.map (Expr.strip .literal) = value.map (Expr.strip .literal) ∧
      ∀ e ∈ value, e.Formed v := by
  cases h with
  | none => exact ⟨rfl, fun e he => nomatch he⟩
  | some h => exact ⟨congrArg some h.same, fun e he => Option.some.inj he ▸ h.formed⟩

theorem StmtTwin.branch {condition condition' : Expr} {thenBlock thenBlock' : Block}
    {elseBlock elseBlock' : Option Block} (hcondition : ExprTwin v condition condition')
    (hthen : BlockTwin v thenBlock thenBlock')
    (helse : Option.Rel (BlockTwin v) elseBlock elseBlock') (span span' : Span) :
    StmtTwin v (.branch condition thenBlock elseBlock span)
      (.branch condition' thenBlock' elseBlock' span') := by
  cases helse with
  | none =>
    refine ⟨?_, hcondition.formed, hthen.formed, trivial⟩
    exact congrArg₂ (Stmt.branch · · none .synthetic) hcondition.same hthen.same
  | some helse =>
    refine ⟨?_, hcondition.formed, hthen.formed, helse.formed⟩
    have hblocks := congrArg₂ Prod.mk hthen.same helse.same
    exact congrArg₂ (fun c (blocks : Block × Block) =>
      Stmt.branch c blocks.1 (some blocks.2) .synthetic) hcondition.same hblocks

theorem StmtTwin.forLoop {target target' iterable iterable' : Expr} {body body' : Block}
    (htarget : ExprTwin v target target') (hiterable : ExprTwin v iterable iterable')
    (hbody : BlockTwin v body body') (span span' : Span) :
    StmtTwin v (.forLoop target iterable body span) (.forLoop target' iterable' body' span') := by
  refine ⟨?_, htarget.formed, hiterable.formed, hbody.formed⟩
  have hheads := congrArg₂ Prod.mk htarget.same hiterable.same
  exact congrArg₂ (fun (heads : Expr × Expr) b =>
    Stmt.forLoop heads.1 heads.2 b .synthetic) hheads hbody.same

namespace Parser

variable {heads : Lexeme → Prop} {p p' : ExprParsers}

theorem agree_checkTarget {e e' : Expr} (h : ExprTwin v e e') :
    Agree v heads m (fun _ _ => badTarget? e = none) (fun _ => 0) (checkTarget e) (checkTarget e') := by
  have hsome : (badTarget? e').isSome = (badTarget? e).isSome := by
    have hbare (e : Expr) : (badTarget? e.bare).isSome = (badTarget? e).isSome :=
      badTarget?_strip (fun _ => rfl) e
    rw [← hbare e', h.same, hbare]
  unfold checkTarget
  cases hbad : badTarget? e with
  | none =>
    rw [hbad, Option.isSome_none, Option.isSome_eq_false_iff, Option.isNone_iff_eq_none] at hsome
    rw [hsome]
    exact .pure rfl rfl
  | some span =>
    rw [hbad] at hsome
    obtain ⟨span', hbad'⟩ := Option.isSome_iff_exists.mp hsome
    rw [hbad']
    exact .invalid _ _ _

/-! ## Simple statements -/

theorem agree_optionalExpr {expr expr' : Parser Expr}
    (hexpr : ∀ {heads}, Agree v heads m (ExprTwin v) (fun _ => 1) expr expr') :
    Agree v heads m (Option.Rel (ExprTwin v)) (fun _ => 0) (optionalExpr expr)
      (optionalExpr expr') := by
  refine .peek_bind fun k _ => ?_
  cases startsExpr k with
  | false => exact .pure .none rfl
  | true => exact hexpr.bind fun e e' he => .pure (.some he) rfl

/-- The text is a sequence of names, each with a dot in front. -/
def IsDottedTail (text : String) : Prop :=
  ∃ parts : List String, (∀ part ∈ parts, isName part = true) ∧
    text.toList = parts.flatMap fun part => '.' :: part.toList

theorem agree_dottedTail : ∀ n m', m' ≤ n →
    Agree v heads m' (fun text text' => text = text' ∧ IsDottedTail text) (fun _ => 0)
      (dottedTail n) (dottedTail n) := by
  intro n
  induction n generalizing heads with
  | zero => exact fun m' hn => .zero hn
  | succ n ih =>
    intro m' hn
    refine .acceptSymbol_bind ?_ (.pure ⟨rfl, [], by simp⟩ rfl)
    refine .identifier_bind fun name _ _ hname => ?_
    refine (ih (m' - 1 - 1) (by omega)).bind fun text text' htext => ?_
    obtain ⟨rfl, parts, hparts, hjoined⟩ := htext
    refine .pure ⟨rfl, name :: parts, ?_, ?_⟩ rfl
    · exact List.forall_mem_cons.mpr ⟨hname, hparts⟩
    · simp [hjoined]

theorem agree_dottedName :
    Agree v heads m (fun name name' => name = name' ∧ IsDottedName name) (fun _ => 1)
      dottedName dottedName := by
  refine .identifier_bind fun name _ _ hname => ?_
  refine (Agree.bounded fun n m' hn _ => agree_dottedTail n m' hn).bind fun text text' htext => ?_
  obtain ⟨rfl, parts, hparts, hjoined⟩ := htext
  refine .pure ⟨rfl, ?_⟩ rfl
  have hall : ∀ part ∈ name :: parts, isName part = true :=
    List.forall_mem_cons.mpr ⟨hname, hparts⟩
  rw [IsDottedName, nameParts_eq hall (by rw [String.toList_append, hjoined])]
  exact hall

theorem agree_aliasOf {P : String → Prop} {name name' : Parser String}
    (hname : ∀ {heads}, Agree v heads m (fun s s' => s = s' ∧ P s) (fun _ => 1) name name') :
    Agree v heads m (fun a a' => a = a' ∧ P a.name ∧ a.ProperRename) (fun _ => 1) (aliasOf name)
      (aliasOf name') := by
  refine hname.bind fun text text' htext => ?_
  obtain ⟨rfl, htext⟩ := htext
  refine .accept_bind Lexeme.noConfusion (fun _ => ?_) (.pure ⟨rfl, htext, fun _ h => nomatch h⟩ rfl)
  refine .identifier_bind fun new _ _ hnew => ?_
  exact .pure ⟨rfl, htext, fun _ h => Option.some.inj h ▸ hnew⟩ rfl

theorem eq_of_forall₂ {P : α → Prop} {as as' : List α}
    (h : List.Forall₂ (fun a a' => a = a' ∧ P a) as as') : as = as' ∧ ∀ a ∈ as, P a := by
  induction h with
  | nil => exact ⟨rfl, List.forall_mem_nil _⟩
  | cons hfirst _ ih =>
    obtain ⟨rfl, hfirst⟩ := hfirst
    obtain ⟨rfl, hothers⟩ := ih
    exact ⟨rfl, List.forall_mem_cons.mpr ⟨hfirst, hothers⟩⟩

theorem agree_importModules (span span' : Span) :
    Agree v heads m (StmtTwin v) (fun _ => 1) (importModules span) (importModules span') := by
  have halias {heads : Lexeme → Prop} {m : Nat} :
      Agree v heads m (fun a a' => a = a' ∧ IsDottedName a.name ∧ a.ProperRename) (fun _ => 1)
        (aliasOf dottedName) (aliasOf dottedName) := agree_aliasOf agree_dottedName
  refine halias.bind fun first first' hfirst => ?_
  refine (Agree.bounded fun n m' hn hm =>
    agree_itemsAfter halias .comma _ n m' hn (Nat.le_succ_of_le hm)).bind fun others others' hothers => ?_
  obtain ⟨hsame, hformed⟩ := eq_of_forall₂ (.cons hfirst hothers)
  rw [hsame] at hformed
  rw [hsame]
  exact .pure ⟨rfl, List.cons_ne_nil _ _, hformed⟩ rfl

theorem agree_leadingDots : ∀ n m', m' ≤ n →
    Agree v heads m' Eq (fun _ => 0) (leadingDots n) (leadingDots n) := by
  intro n
  induction n generalizing heads with
  | zero => exact fun m' hn => .zero hn
  | succ n ih =>
    intro m' hn
    refine .acceptSymbol_bind ?_ (.pure rfl rfl)
    refine (ih (m' - 1) (by omega)).bind fun dots dots' hdots => ?_
    exact .pure (congrArg (· + 1) hdots) rfl

/-- An import of names from a module, of which the module was taken. -/
def importFrom (level : Nat) (module? : Option String) (span : Span) : Parser Stmt := do
  if module?.isNone ∧ level = 0 then
    let _ ← unexpected (α := Unit) "module name"
  let _ ← expect (.keyword .importKw) "'import'"
  let item := aliasOf (return (← identifier "imported name").1)
  let names ←
    if ← acceptSymbol .leftParen then
      itemsUntil .rightParen item
    else do
      let first ← item
      pure (first :: (← bounded (itemsAfter .comma (fun _ => true) item)))
  if names.isEmpty then unexpected "imported name"
  else return .importNames level module? names span

theorem importNames_eq (span : Span) : importNames span = (do
    let level ← bounded leadingDots
    if ← isAt (.keyword .importKw) then
      importFrom level none span
    else do
      let name ← dottedName
      importFrom level (some name) span) := by
  simp only [importNames, importFrom, pure_bind, bind_map_left]

theorem agree_importFrom {level : Nat} {module? : Option String}
    (hmodule : ∀ name ∈ module?, IsDottedName name) (span span' : Span) :
    Agree v heads m (StmtTwin v) (fun _ => 1) (importFrom level module? span)
      (importFrom level module? span') := by
  have halias {heads : Lexeme → Prop} {m : Nat} :
      Agree v heads m (fun a a' => a = a' ∧ isName a.name = true ∧ a.ProperRename) (fun _ => 1)
        (aliasOf (return (← identifier "imported name").1))
        (aliasOf (return (← identifier "imported name").1)) :=
    agree_aliasOf (P := fun name => isName name = true)
      (.identifier_bind fun name _ _ hname => .pure ⟨rfl, hname⟩ rfl)
  unfold importFrom
  by_cases hnone : module?.isNone = true ∧ level = 0
  · rw [if_pos hnone, if_pos hnone]
    exact fun _ _ _ _ _ _ _ => .error SyntaxFault.noConfusion SyntaxFault.noConfusion
  rw [if_neg hnone, if_neg hnone]
  refine .expect_bind Lexeme.noConfusion fun _ _ _ => ?_
  have hfinish {heads : Lexeme → Prop} {m : Nat} {names names' : List Alias}
      (hnames : List.Forall₂ (fun a a' => a = a' ∧ isName a.name = true ∧ a.ProperRename)
        names names') : Agree v heads m (StmtTwin v) (fun _ => 0)
        (if names.isEmpty then unexpected "imported name"
          else return .importNames level module? names span)
        (if names'.isEmpty then unexpected "imported name"
          else return .importNames level module? names' span') := by
    obtain ⟨rfl, hformed⟩ := eq_of_forall₂ hnames
    cases names with
    | nil => exact .unexpected _
    | cons a names =>
      refine .pure ⟨rfl, fun hlevel hmodule => hnone ⟨?_, hlevel⟩, hmodule, List.cons_ne_nil _ _,
        hformed⟩ rfl
      rw [hmodule]
      rfl
  refine .acceptSymbol_bind ?_ ?_
  · exact (agree_itemsUntil halias .rightParen).bind fun names names' hnames => hfinish hnames
  · refine halias.bind fun first first' hfirst => ?_
    refine (Agree.bounded fun n m' hn hm =>
      agree_itemsAfter halias .comma _ n m' hn (Nat.le_succ_of_le hm)).bind
      fun others others' hothers => ?_
    exact hfinish (.cons hfirst hothers)

theorem agree_importNames (span span' : Span) :
    Agree v heads m (StmtTwin v) (fun _ => 1) (importNames span) (importNames span') := by
  rw [importNames_eq, importNames_eq]
  refine (Agree.bounded fun n m' hn _ => agree_leadingDots n m' hn).bind fun level level' hlevel => ?_
  subst hlevel
  have hnone : ∀ name ∈ (none : Option String), IsDottedName name := fun _ h => nomatch h
  refine .isAt_bind (agree_importFrom hnone span span') ?_
  refine agree_dottedName.bind fun name name' hname => ?_
  obtain ⟨rfl, hname⟩ := hname
  exact (agree_importFrom (fun _ h => Option.some.inj h ▸ hname) span span').mono
    (fun _ hk => hk) (Nat.le_refl _) (fun _ _ h => h) fun _ => Nat.sub_le _ _

theorem augmentOp?_mem {k : Lexeme} {op : BinaryOp} (h : augmentOp? k = some op) :
    op ∈ [BinaryOp.add, .sub, .mul] ∧ k ≠ .eof := by
  unfold augmentOp? at h
  split at h <;> cases h <;> exact ⟨by decide, Lexeme.noConfusion⟩

theorem agree_exprStmt (hp : ExprAgree v m p p') :
    Agree v heads m (StmtTwin v) (fun _ => 1) (exprStmt p) (exprStmt p') := by
  refine (agree_exprListOf hp.expr).bind fun left left' hleft => ?_
  refine .peek_bind fun k _ => ?_
  cases hop : augmentOp? k with
  | some op =>
    obtain ⟨hmem, hk⟩ := augmentOp?_mem hop
    refine .advance_bind hk fun _ _ _ => ?_
    refine (agree_checkTarget hleft).bind fun _ _ htarget => ?_
    refine (agree_exprListOf (hp.restrict (by omega)).expr).bind fun right right' hright => ?_
    refine .pure ⟨?_, hmem, ⟨hleft.formed, htarget⟩, hright.formed⟩ rfl
    exact congrArg₂ (Stmt.augment op · · .synthetic) hleft.same hright.same
  | none =>
    refine .acceptSymbol_bind ?_ (.pure ⟨congrArg Stmt.expr hleft.same, hleft.formed⟩ rfl)
    refine (agree_checkTarget hleft).bind fun _ _ htarget => ?_
    refine (agree_exprListOf (hp.restrict (by omega)).expr).bind fun right right' hright => ?_
    refine .pure ⟨?_, ⟨hleft.formed, htarget⟩, hright.formed⟩ rfl
    exact congrArg₂ (Stmt.assign · · .synthetic) hleft.same hright.same

theorem agree_endOfLine :
    Agree v heads m (fun _ _ => True) (fun _ => 1) endOfLine endOfLine :=
  .expect_bind Lexeme.noConfusion fun _ _ _ => .pure trivial rfl

theorem agree_simpleStmt (hp : ExprAgree v m p p') :
    Agree v heads m (StmtTwin v) (fun _ => 1) (simpleStmt p) (simpleStmt p') := by
  refine .peekToken_bind fun k span span' _ => ?_
  -- A statement that takes at least one token, by itself or with the end of its line.
  have hfinish {heads : Lexeme → Prop} {m : Nat} {taken : Stmt → Nat} {s s' : Stmt}
      (h : StmtTwin v s s') (htaken : taken s ≤ 1) :
      Agree v heads m (StmtTwin v) taken (do endOfLine; return s) (do endOfLine; return s') :=
    (agree_endOfLine.bind fun _ _ _ => .pure h (by omega)).mono (fun _ hk => hk) (Nat.le_refl _)
      (fun _ _ h => h) fun _ => Nat.le_refl _
  have hexpr : Agree v (· = k) m (StmtTwin v) (fun _ => 1)
      (do
        let stmt ← exprStmt p
        endOfLine
        return stmt)
      (do
        let stmt ← exprStmt p'
        endOfLine
        return stmt) :=
    (agree_exprStmt hp).bind fun _ _ h => hfinish h (by omega)
  cases k with
  | keyword word =>
    cases word with
    | returnKw =>
      refine .advance_bind Lexeme.noConfusion fun _ _ _ => ?_
      refine (agree_optionalExpr (agree_exprListOf (hp.restrict (by omega)).expr)).bind
        fun value value' hvalue => ?_
      obtain ⟨hsame, hformed⟩ := optional_of_twins hvalue
      exact hfinish ⟨congrArg (Stmt.returnValue · .synthetic) hsame, hformed⟩ (by omega)
    | raiseKw =>
      refine .advance_bind Lexeme.noConfusion fun _ _ _ => ?_
      refine (agree_optionalExpr ((hp.restrict (by omega)).expr.restrict (Nat.le_refl _))).bind
        fun value value' hvalue => ?_
      obtain ⟨hsame, hformed⟩ := optional_of_twins hvalue
      exact hfinish ⟨congrArg (Stmt.raise · .synthetic) hsame, hformed⟩ (by omega)
    | importKw =>
      refine .advance_bind Lexeme.noConfusion fun _ _ _ => ?_
      exact (agree_importModules span span').bind fun _ _ h => hfinish h (by omega)
    | fromKw =>
      refine .advance_bind Lexeme.noConfusion fun _ _ _ => ?_
      exact (agree_importNames span span').bind fun _ _ h => hfinish h (by omega)
    | passKw | breakKw | continueKw =>
      exact .advance_bind Lexeme.noConfusion fun _ _ _ => hfinish ⟨rfl, trivial⟩ (by omega)
    | _ => exact hexpr
  | _ => exact hexpr

/-! ## Blocks -/

theorem twin_dropNewlines {ts ts' : List Token} (h : Twin v ts ts') :
    Twin v (ts.dropWhile (·.kind = .newline)) (ts'.dropWhile (·.kind = .newline)) := by
  induction h with
  | last span span' => exact .last span span'
  | @cons k span span' ts ts' inside admitted twins ih =>
    by_cases hk : k = .newline
    · subst hk
      exact ih
    · rw [List.dropWhile_cons_of_neg (by simpa using hk),
        List.dropWhile_cons_of_neg (by simpa using hk)]
      exact .cons inside admitted twins

theorem agree_skipNewlines :
    Agree v heads m (fun _ _ => True) (fun _ => 0) skipNewlines skipNewlines :=
  fun _ _ _ htwin _ _ _ =>
    .ok trivial (twin_dropNewlines htwin) (List.dropWhile_sublist _).length_le

theorem agree_comments : ∀ n m', m' ≤ n →
    Agree v heads m' (fun texts texts' => texts = texts' ∧ ∀ text ∈ texts, v.comment text)
      (fun _ => 0) (comments n) (comments n) := by
  intro n
  induction n generalizing heads with
  | zero => exact fun m' hn => .zero hn
  | succ n ih =>
    intro m' hn
    refine .peek_bind fun k _ => ?_
    cases k with
    | comment text =>
      refine .advance_bind Lexeme.noConfusion fun _ _ htext => ?_
      refine (ih (m' - 1) (by omega)).bind fun texts texts' htexts => ?_
      obtain ⟨rfl, htexts⟩ := htexts
      exact .pure ⟨rfl, List.forall_mem_cons.mpr ⟨htext, htexts⟩⟩ rfl
    | _ => exact .pure ⟨rfl, List.forall_mem_nil _⟩ rfl

section Blocks

variable {stmt stmt' : Parser Stmt} (hstmt : Agree v anyHead m (StmtTwin v) (fun _ => 1) stmt stmt')

include hstmt

theorem agree_stmtsUntil (stop : Lexeme) : ∀ n m', m' ≤ n → m' ≤ m →
    Agree v heads m' (List.Forall₂ (StmtTwin v)) (fun _ => 0) (stmtsUntil stop stmt n)
      (stmtsUntil stop stmt' n) := by
  intro n
  induction n generalizing heads with
  | zero => exact fun m' hn _ => .zero hn
  | succ n ih =>
    intro m' hn hm
    refine .peek_bind fun k _ => ?_
    by_cases hstop : k = stop ∨ k = .eof
    · rw [if_pos hstop, if_pos hstop]
      exact .pure .nil rfl
    rw [if_neg hstop, if_neg hstop]
    by_cases hnewline : k = .newline
    · rw [if_pos hnewline, if_pos hnewline]
      refine .advance_bind (fun heof => hstop (.inr heof)) fun _ _ _ => ?_
      exact ih (m' - 1) (by omega) (by omega)
    rw [if_neg hnewline, if_neg hnewline]
    refine (hstmt.restrict hm).bind fun first first' hfirst => ?_
    refine (ih (m' - 1) (by omega) (by omega)).bind fun others others' hothers => ?_
    exact .pure (.cons hfirst hothers) rfl

theorem agree_suite (hp : ExprAgree v m p p') :
    Agree v heads m (BlockTwin v) (fun _ => 0) (suite p stmt) (suite p' stmt') := by
  refine .accept_bind Lexeme.noConfusion (fun _ => ?_) ?_
  · refine (Agree.bounded fun n m' hn _ => agree_comments n m' hn).bind
      fun leading leading' hleading => ?_
    obtain ⟨rfl, hleading⟩ := hleading
    refine .expect_bind Lexeme.noConfusion fun _ _ _ => ?_
    refine (Agree.bounded fun n m' hn hm =>
      agree_stmtsUntil hstmt .dedent n m' hn (by omega)).bind fun body body' hbody => ?_
    refine .expect_bind Lexeme.noConfusion fun _ _ _ => .pure (blockTwin_of_twins ?_) rfl
    have hcomments : List.Forall₂ (StmtTwin v) (leading.map .comment) (leading.map .comment) := by
      rw [List.forall₂_map_left_iff, List.forall₂_map_right_iff, List.forall₂_same]
      exact fun text htext => ⟨rfl, hleading text htext⟩
    exact List.rel_append hcomments hbody
  · refine (agree_simpleStmt hp).bind fun s s' hs => ?_
    exact .pure (blockTwin_of_twins (.cons hs .nil)) rfl

theorem agree_colonSuite (hp : ExprAgree v m p p') :
    Agree v heads (m + 1) (BlockTwin v) (fun _ => 1) (colonSuite p stmt) (colonSuite p' stmt') :=
  .expectSymbol_bind (agree_suite hstmt hp)

end Blocks

/-! ## Functions -/

theorem agree_exprAfter (sign : Symbol) (hp : ExprAgree v m p p') :
    Agree v heads (m + 1) (Option.Rel (ExprTwin v)) (fun _ => 0) (exprAfter sign p)
      (exprAfter sign p') := by
  refine .acceptSymbol_bind ?_ (.pure .none rfl)
  exact hp.expr.bind fun e e' he => .pure (.some he) rfl

/-- The same parameters up to places, of the vocabulary; after one with a default all have one. -/
structure ParamsTwin (v : Vocabulary) (sawDefault : Bool) (params params' : List Param) : Prop where
  each : List.Forall₂ (ParamTwin v) params params'
  rest : sawDefault = true → ∀ q ∈ params, q.default.isSome = true
  pairs : params.Pairwise fun p q => p.default.isSome = true → q.default.isSome = true

theorem agree_paramsAfter (hp : ExprAgree v m p p') : ∀ n m', m' ≤ n → m' ≤ m + 1 → ∀ saw,
    Agree v heads m' (ParamsTwin v saw) (fun _ => 0) (paramsAfter p saw n)
      (paramsAfter p' saw n) := by
  intro n
  induction n generalizing heads with
  | zero => exact fun m' hn _ _ => .zero hn
  | succ n ih =>
    intro m' hn hm saw
    refine .isAt_bind (.pure ⟨.nil, fun _ => List.forall_mem_nil _, .nil⟩ rfl) ?_
    refine .identifier_bind fun name span span' hname => ?_
    refine ((agree_exprAfter .colon hp).restrict (by omega)).bind
      fun annotation annotation' hannotation => ?_
    refine ((agree_exprAfter .eq hp).restrict (by omega)).bind fun default default' hdefault => ?_
    have hsome : default'.isSome = default.isSome := by cases hdefault <;> rfl
    have hnone : default'.isNone = default.isNone := by cases hdefault <;> rfl
    dsimp only
    rw [hsome, hnone]
    by_cases hmissing : default.isNone = true ∧ saw = true
    · rw [if_pos hmissing, if_pos hmissing]
      exact .invalid _ _ _
    rw [if_neg hmissing, if_neg hmissing]
    have hparam : ParamTwin v ⟨name, annotation, default, span⟩
        ⟨name, annotation', default', span'⟩ := by
      obtain ⟨hsame, hformed⟩ := optional_of_twins hannotation
      obtain ⟨hsame', hformed'⟩ := optional_of_twins hdefault
      refine ⟨?_, hname, hformed, hformed'⟩
      exact congrArg₂ (Param.mk name · · .synthetic) hsame hsame'
    have hfirst : saw = true → default.isSome = true := fun hsaw => by
      cases default with
      | none => exact absurd ⟨rfl, hsaw⟩ hmissing
      | some e => rfl
    refine .acceptSymbol_bind ?_ (.pure ⟨.cons hparam .nil, ?_, List.pairwise_singleton _ _⟩ rfl)
    · refine (ih (m' - 1 - 0 - 0 - 1) (by omega) (by omega) _).bind fun params params' hparams => ?_
      refine .pure ⟨.cons hparam hparams.each, fun hsaw => ?_, ?_⟩ rfl
      · exact List.forall_mem_cons.mpr ⟨hfirst hsaw, hparams.rest (by rw [hsaw]; rfl)⟩
      · refine List.pairwise_cons.mpr ⟨fun q hq hdefault => ?_, hparams.pairs⟩
        exact hparams.rest (by rw [show default.isSome = true from hdefault, Bool.or_true]) q hq
    · exact fun hsaw => List.forall_mem_singleton.mpr (hfirst hsaw)

theorem agree_decorators (hp : ExprAgree v m p p') : ∀ n m', m' ≤ n → m' ≤ m + 1 →
    Agree v heads m' (List.Forall₂ (ExprTwin v)) (fun _ => 0) (decorators p n)
      (decorators p' n) := by
  intro n
  induction n generalizing heads with
  | zero => exact fun m' hn _ => .zero hn
  | succ n ih =>
    intro m' hn hm
    refine .acceptSymbol_bind ?_ (.pure .nil rfl)
    refine (hp.expr.restrict (by omega)).bind fun e e' he => ?_
    refine agree_endOfLine.bind fun _ _ _ => agree_skipNewlines.bind fun _ _ _ => ?_
    refine (ih (m' - 1 - 1 - 1 - 0) (by omega) (by omega)).bind fun others others' hothers => ?_
    exact .pure (.cons he hothers) rfl

theorem map_of_twins {R : α → α → Prop} {f : α → β} (himp : ∀ a a', R a a' → f a' = f a)
    {as as' : List α} (h : List.Forall₂ R as as') : as'.map f = as.map f := by
  induction h with
  | nil => rfl
  | cons hfirst _ ih => rw [List.map_cons, List.map_cons, himp _ _ hfirst, ih]

theorem forall_of_twins {R : α → α → Prop} {P : α → Prop} (himp : ∀ a a', R a a' → P a)
    {as as' : List α} (h : List.Forall₂ R as as') : ∀ a ∈ as, P a := by
  induction h with
  | nil => exact List.forall_mem_nil _
  | cons hfirst _ ih => exact List.forall_mem_cons.mpr ⟨himp _ _ hfirst, ih⟩

section Compound

variable {stmt stmt' : Parser Stmt} (hstmt : Agree v anyHead m (StmtTwin v) (fun _ => 1) stmt stmt')
  (hp : ExprAgree v m p p')

include hstmt hp

theorem agree_functionDef :
    Agree v heads (m + 1) (StmtTwin v) (fun _ => 1) (functionDef p stmt)
      (functionDef p' stmt') := by
  refine (Agree.bounded fun n m' hn hm => agree_decorators hp n m' hn hm).bind
    fun decorators decorators' hdecorators => ?_
  refine .expect_bind Lexeme.noConfusion fun span span' _ => ?_
  refine .identifier_bind fun name _ _ hname => .expectSymbol_bind ?_
  refine (Agree.bounded fun n m' hn hm =>
    agree_paramsAfter hp n m' hn (by omega) false).bind fun params params' hparams => ?_
  refine .expectSymbol_bind ?_
  refine ((agree_exprAfter .arrow hp).restrict (by omega)).bind
    fun returnType returnType' hreturn => ?_
  refine ((agree_colonSuite hstmt hp).restrict (by omega)).bind fun body body' hbody => ?_
  obtain ⟨hsame, hformed⟩ := optional_of_twins hreturn
  refine .pure ⟨congrArg₂ Stmt.function ?_ hbody.same, ⟨hname, ?_, ?_, hparams.pairs, hformed⟩,
    hbody.formed⟩ rfl
  · have hdecorators' : decorators'.map (Expr.strip .literal) = decorators.map (Expr.strip .literal) :=
      map_of_twins (fun _ _ h => h.same) hdecorators
    have hparams' : params'.map (Param.strip .bare) = params.map (Param.strip .bare) :=
      map_of_twins (fun _ _ h => h.same) hparams.each
    show FunctionHeader.mk name (decorators'.map (Expr.strip .literal))
      (params'.map (Param.strip .bare)) (returnType'.map (Expr.strip .literal)) .synthetic = _
    rw [hdecorators', hparams', hsame]
    rfl
  · exact forall_of_twins (fun _ _ h => h.formed) hdecorators
  · exact forall_of_twins (fun _ _ h => h.formed) hparams.each

/-! ## Other statements with blocks -/

theorem agree_branch : ∀ n m' word, m' ≤ n → m' ≤ m + 1 →
    Agree v (· = .keyword word) m' (StmtTwin v) (fun _ => 1) (branch p stmt n)
      (branch p' stmt' n) := by
  intro n
  induction n with
  | zero => exact fun m' _ hn _ => .zero hn
  | succ n ih =>
    intro m' word hn hm
    refine .advance_bind Lexeme.noConfusion fun span span' _ => ?_
    refine (hp.expr.restrict (by omega)).bind fun condition condition' hcondition => ?_
    refine ((agree_colonSuite hstmt hp).restrict (by omega)).bind
      fun thenBlock thenBlock' hthen => ?_
    have hplain {heads : Lexeme → Prop} {m : Nat} : Agree v heads m (StmtTwin v) (fun _ => 0)
        (pure (Stmt.branch condition thenBlock none span))
        (pure (Stmt.branch condition' thenBlock' none span')) :=
      .pure (.branch hcondition hthen .none span span') rfl
    refine .peek_bind fun k _ => ?_
    cases k with
    | keyword word =>
      cases word with
      | elifKw =>
        refine (ih _ .elifKw (by omega) (by omega)).bind fun s s' hs => ?_
        have hblock : BlockTwin v [s] [s'] := blockTwin_of_twins (.cons hs .nil)
        exact .pure (.branch hcondition hthen (.some hblock) span span') rfl
      | elseKw =>
        refine .advance_bind Lexeme.noConfusion fun _ _ _ => ?_
        refine ((agree_colonSuite hstmt hp).restrict (by omega)).bind
          fun otherwise otherwise' hotherwise => ?_
        exact .pure (.branch hcondition hthen (.some hotherwise) span span') rfl
      | _ => exact hplain
    | _ => exact hplain

omit hstmt in
theorem agree_loopTarget :
    Agree v heads (m + 1) (ExprTwin v) (fun _ => 1) (loopTarget p) (loopTarget p') := by
  refine (agree_postfixExpr hp).bind fun first first' hfirst => ?_
  refine .isAt_bind ?_ (.pure hfirst rfl)
  refine (Agree.bounded fun n m' hn hm => agree_itemsAfter (agree_postfixExpr hp) .comma _ n m' hn
    (by omega)).bind fun others others' hothers => ?_
  exact .pure (.tuple (.cons hfirst hothers) _ _) rfl

/-- The same cases up to places, of the vocabulary. -/
structure CasesTwin (v : Vocabulary) (cases cases' : List Case) : Prop where
  same : stripCases .bare cases' = stripCases .bare cases
  formed : CasesMeet v.requirements cases

theorem agree_cases : ∀ n m', m' ≤ n → m' ≤ m + 1 →
    Agree v heads m' (CasesTwin v) (fun _ => 0) (cases p stmt n) (cases p' stmt' n) := by
  intro n
  induction n generalizing heads with
  | zero => exact fun m' hn _ => .zero hn
  | succ n ih =>
    intro m' hn hm
    refine .peek_bind fun k _ => ?_
    cases k with
    | dedent | eof => exact .pure ⟨rfl, trivial⟩ rfl
    | newline | comment _ =>
      exact .advance_bind Lexeme.noConfusion fun _ _ _ => ih (m' - 1) (by omega) (by omega)
    | keyword word =>
      cases word with
      | caseKw =>
        refine .advance_bind Lexeme.noConfusion fun _ _ _ => ?_
        refine agree_casePattern.bind fun pattern pattern' hpattern => ?_
        refine ((agree_colonSuite hstmt hp).restrict (by omega)).bind fun body body' hbody => ?_
        refine (ih (m' - 1 - 1 - 1) (by omega) (by omega)).bind fun others others' hothers => ?_
        refine .pure ⟨?_, ⟨hpattern.formed, hbody.formed⟩, hothers.formed⟩ rfl
        exact congrArg₂ List.cons (congrArg₂ Case.on hpattern.same hbody.same) hothers.same
      | _ => exact .unexpected _
    | _ => exact .unexpected _

theorem agree_matchOn (span span' : Span) :
    Agree v heads m (StmtTwin v) (fun _ => 1) (matchOn p stmt span) (matchOn p' stmt' span') := by
  refine (agree_exprListOf hp.expr).bind fun subject subject' hsubject => ?_
  refine .expectSymbol_bind (agree_endOfLine.bind fun _ _ _ => ?_)
  refine (Agree.bounded fun n m' hn _ => agree_comments n m' hn).bind fun _ _ _ => ?_
  refine .expect_bind Lexeme.noConfusion fun _ _ _ => ?_
  refine (Agree.bounded fun n m' hn hm =>
    agree_cases hstmt hp n m' hn (by omega)).bind fun found found' hfound => ?_
  refine .expect_bind Lexeme.noConfusion fun _ _ _ => ?_
  refine .pure ⟨?_, hsubject.formed, hfound.formed⟩ rfl
  exact congrArg₂ (Stmt.matchOn · · .synthetic) hsubject.same hfound.same

end Compound

theorem agree_stmtOver {stmt stmt' : Parser Stmt}
    (hstmt : Agree v anyHead m (StmtTwin v) (fun _ => 1) stmt stmt')
    (hp : ExprAgree v (m + 1) p p') :
    Agree v heads (m + 1) (StmtTwin v) (fun _ => 1) (stmtOver p stmt) (stmtOver p' stmt') := by
  have hp' : ExprAgree v m p p' := hp.restrict (Nat.le_succ m)
  refine .peekToken_bind fun k span span' _ => ?_
  cases k with
  | comment text =>
    exact .advance_bind Lexeme.noConfusion fun _ _ htext => .pure ⟨rfl, htext⟩ rfl
  | symbol sign =>
    cases sign with
    | atSign => exact agree_functionDef hstmt hp'
    | _ => exact agree_simpleStmt hp
  | keyword word =>
    cases word with
    | defKw => exact agree_functionDef hstmt hp'
    | ifKw =>
      exact .bounded fun n m' hn hm => agree_branch hstmt hp' n m' .ifKw hn hm
    | whileKw =>
      refine .advance_bind Lexeme.noConfusion fun _ _ _ => ?_
      refine hp'.expr.bind fun condition condition' hcondition => ?_
      refine ((agree_colonSuite hstmt hp').restrict (by omega)).bind fun body body' hbody => ?_
      refine .pure ⟨?_, hcondition.formed, hbody.formed⟩ rfl
      exact congrArg₂ (Stmt.whileLoop · · .synthetic) hcondition.same hbody.same
    | forKw =>
      refine .advance_bind Lexeme.noConfusion fun _ _ _ => ?_
      refine ((agree_loopTarget hp').restrict (by omega)).bind fun target target' htarget => ?_
      refine .expect_bind Lexeme.noConfusion fun _ _ _ => ?_
      refine (agree_exprListOf (hp'.restrict (by omega)).expr).bind
        fun iterable iterable' hiterable => ?_
      refine ((agree_colonSuite hstmt hp').restrict (by omega)).bind fun body body' hbody => ?_
      exact .pure (.forLoop htarget hiterable hbody span span') rfl
    | matchKw =>
      exact .advance_bind Lexeme.noConfusion fun _ _ _ =>
        (agree_matchOn hstmt hp' span span').mono (fun _ hk => hk) (by omega) (fun _ _ h => h)
          fun _ => by omega
    | _ => exact agree_simpleStmt hp
  | _ => exact agree_simpleStmt hp

/-- Statements that are read within depths not below the number of tokens. -/
theorem agree_stmtWithin : ∀ m, ExprAgree v m p p' → ∀ n n', m ≤ n → m ≤ n' →
    Agree v heads m (StmtTwin v) (fun _ => 1) (stmtWithin p n) (stmtWithin p' n') := by
  intro m
  induction m generalizing heads with
  | zero => exact fun _ _ _ _ _ => .zero (Nat.le_refl 0)
  | succ m ih =>
    intro hp n n' hn hn'
    obtain ⟨n, rfl⟩ := Nat.exists_eq_add_one_of_ne_zero (show n ≠ 0 by omega)
    obtain ⟨n', rfl⟩ := Nat.exists_eq_add_one_of_ne_zero (show n' ≠ 0 by omega)
    have hp' : ExprAgree v m p p' := hp.restrict (Nat.le_succ m)
    exact agree_stmtOver (ih hp' n n' (by omega) (by omega)) hp

theorem agree_moduleBody {bound bound' : Nat} (hbound : m ≤ bound) (hbound' : m ≤ bound') :
    Agree v heads m (List.Forall₂ (StmtTwin v)) (fun _ => 0) (moduleBody bound)
      (moduleBody bound') := by
  have hp : ExprAgree v m (exprParsers bound) (exprParsers bound') :=
    exprAgree m bound bound' hbound hbound'
  exact .bounded fun n m' hn hm =>
    agree_stmtsUntil (agree_stmtWithin m hp bound bound' hbound hbound') .eof n m' hn hm

end Parser

/-! ## Modules -/

/-- What is read from a text of which the tokens are known. -/
theorem readModule_of_tokens {source : String} {ts : List Token} (h : tokens source = .ok ts) :
    readModule source =
      (Parser.moduleBody (nestingBound source) (ts.length + 1) ts).map Prod.fst := by
  rw [readModule, h]
  rfl

/-- A text that is read has tokens. -/
theorem tokens_of_readModule {source : String} {body : Block} (h : readModule source = .ok body) :
    ∃ ts, tokens source = .ok ts := by
  cases hts : tokens source with
  | ok ts => exact ⟨ts, rfl⟩
  | error fault =>
    rw [readModule, hts] at h
    nomatch h

/-- Twins of tokens are both read, as the same module up to places, or both refused. -/
theorem moduleBody_twin {ts ts' : List Token} (htwin : Twin v ts ts') {bound bound' : Nat}
    (hbound : ts.length ≤ bound) (hbound' : ts.length ≤ bound') :
    (∃ body body',
      (Parser.moduleBody bound (ts.length + 1) ts).map Prod.fst = .ok body ∧
      (Parser.moduleBody bound' (ts'.length + 1) ts').map Prod.fst = .ok body' ∧
      BlockTwin v body body') ∨
    (∃ fault fault',
      (Parser.moduleBody bound (ts.length + 1) ts).map Prod.fst = .error fault ∧
      (Parser.moduleBody bound' (ts'.length + 1) ts').map Prod.fst = .error fault') := by
  have hagree : Parser.Agree v Parser.anyHead ts.length (List.Forall₂ (StmtTwin v)) (fun _ => 0)
      (Parser.moduleBody bound) (Parser.moduleBody bound') :=
    Parser.agree_moduleBody hbound hbound'
  have hout := hagree (ts.length + 1) ts ts' htwin (fun _ _ => trivial) (Nat.le_refl _)
    (Nat.lt_succ_self _)
  rw [htwin.length_eq]
  revert hout
  generalize Parser.moduleBody bound (ts.length + 1) ts = out
  generalize Parser.moduleBody bound' (ts.length + 1) ts' = out'
  intro hout
  cases hout with
  | ok related _ _ => exact .inl ⟨_, _, rfl, rfl, blockTwin_of_twins related⟩
  | error _ _ => exact .inr ⟨_, _, rfl, rfl⟩

/-- Texts that are cut into the same lexemes are both read, as the same module up to places, or
both refused. -/
theorem readModule_twin {source source' : String} {ts ts' : List Token}
    (hts : tokens source = .ok ts) (hts' : tokens source' = .ok ts')
    (hadmits : ∀ t ∈ ts, t.kind.Proper → v.Admits t.kind)
    (hkinds : ts'.map Token.kind = ts.map Token.kind) :
    (∃ body body', readModule source = .ok body ∧ readModule source' = .ok body' ∧
      BlockTwin v body body') ∨
    (∃ fault fault', readModule source = .error fault ∧ readModule source' = .error fault') := by
  obtain ⟨hcomplete, hlength⟩ := tokens_complete hts
  obtain ⟨-, hlength'⟩ := tokens_complete hts'
  have htwin : Twin v ts ts' := .of_complete (hcomplete.mono hadmits) hkinds
  have hsame : ts'.length = ts.length := htwin.length_eq
  rw [readModule_of_tokens hts, readModule_of_tokens hts']
  exact moduleBody_twin htwin (by rw [nestingBound]; omega) (by rw [nestingBound]; omega)

/-- A text is read as its lexemes are, whatever their places. -/
theorem readModule_of_kinds {source : String} {ts : List Token} (hts : tokens source = .ok ts)
    (hadmits : ∀ t ∈ ts, t.kind.Proper → v.Admits t.kind) {ts' : List Token}
    (hkinds : ts'.map Token.kind = ts.map Token.kind) {body' : Block}
    (hread : (Parser.moduleBody (nestingBound source) (ts'.length + 1) ts').map Prod.fst =
      .ok body') : ∃ body, readModule source = .ok body ∧ bareBlock body' = bareBlock body := by
  obtain ⟨hcomplete, hlength⟩ := tokens_complete hts
  have htwin : Twin v ts ts' := .of_complete (hcomplete.mono hadmits) hkinds
  have hbound : ts.length ≤ nestingBound source := by
    rw [nestingBound]
    omega
  rw [readModule_of_tokens hts]
  obtain ⟨body, again, hbody, hagain, hsame⟩ | ⟨_, _, _, hfault⟩ :=
    moduleBody_twin htwin hbound hbound
  · rw [hread] at hagain
    exact ⟨body, hbody, Except.ok.inj hagain ▸ hsame.same⟩
  · rw [hread] at hfault
    nomatch hfault

/-- What is read from a text is well formed. -/
theorem meets_of_readModule {source : String} {body : Block} (h : readModule source = .ok body)
    (hadmits : ∀ ts, tokens source = .ok ts → ∀ t ∈ ts, t.kind.Proper → v.Admits t.kind) :
    StmtsMeet v.requirements body := by
  obtain ⟨ts, hts⟩ := tokens_of_readModule h
  obtain ⟨body', _, hread, _, htwin⟩ | ⟨fault, _, hfault, _⟩ :=
    readModule_twin (v := v) hts hts (hadmits ts hts) rfl
  · rw [h] at hread
    exact Except.ok.inj hread ▸ htwin.formed
  · rw [h] at hfault
    nomatch hfault

end StagedScript.Syntax
