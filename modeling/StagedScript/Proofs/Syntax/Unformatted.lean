import StagedScript.Proofs.Syntax.Agreement
import StagedScript.Proofs.Syntax.Rows

/-!
# Trees without formatted strings

The lexemes of a tree without formatted strings are no formatted strings either.
-/

namespace StagedScript.Syntax

open Text

def Lexeme.isFormatted : Lexeme → Bool
  | .formatted _ => true
  | _ => false

def unformatted (ks : List Lexeme) : Bool :=
  ks.all fun k => !k.isFormatted

@[simp] theorem unformatted_nil : unformatted [] = true :=
  rfl

@[simp] theorem unformatted_cons (k : Lexeme) (ks : List Lexeme) :
    unformatted (k :: ks) = (!k.isFormatted && unformatted ks) :=
  rfl

@[simp] theorem unformatted_append (ks ks' : List Lexeme) :
    unformatted (ks ++ ks') = (unformatted ks && unformatted ks') :=
  List.all_append

theorem unformatted_replicate (n : Nat) {k : Lexeme} (hk : k.isFormatted = false) :
    unformatted (List.replicate n k) = true := by
  simp [unformatted, hk]

@[simp] theorem unformatted_bracketed (opening closing : Symbol) (ks : List Lexeme) :
    unformatted (bracketed opening closing ks) = unformatted ks := by
  simp [bracketed, Lexeme.isFormatted]

theorem unformatted_intercalate {k : Lexeme} (hk : k.isFormatted = false)
    (kss : List (List Lexeme)) : unformatted ([k].intercalate kss) = kss.all unformatted := by
  induction kss with
  | nil => rfl
  | cons ks kss ih =>
    cases kss with
    | nil => simp
    | cons ks' kss =>
      rw [List.intercalate_cons_cons, unformatted_append, unformatted_append, ih]
      simp [hk]

@[simp] theorem unformatted_separated (kss : List (List Lexeme)) :
    unformatted (separated kss) = kss.all unformatted :=
  unformatted_intercalate rfl kss

@[simp] theorem unformatted_tupleLexemes (kss : List (List Lexeme)) :
    unformatted (tupleLexemes kss) = kss.all unformatted := by
  unfold tupleLexemes
  split <;> simp [Lexeme.isFormatted]

@[simp] theorem unformatted_signLexemes (negative : Bool) :
    unformatted (signLexemes negative) = true := by
  cases negative <;> rfl

@[simp] theorem BinaryOp.unformatted_lexemes (op : BinaryOp) : unformatted op.lexemes = true := by
  cases op <;> rfl

@[simp] theorem Constant.unformatted_lexemes (c : Constant) : unformatted c.lexemes = true := by
  match c with
  | .none | .bool true | .bool false | .string _ => rfl
  | .int n => simp [Constant.lexemes, Lexeme.isFormatted]
  | .float x =>
    unfold Constant.lexemes
    dsimp only
    split <;> simp [specialLexemes, Lexeme.isFormatted]

/-- An index has the lexemes of the expression, perhaps without parentheses. -/
theorem unformatted_index (index : Expr) :
    unformatted (match index with
      | .tuple (first :: second :: others) _ => separated (itemLexemes (first :: second :: others))
      | index => index.lexemes 0) = unformatted (index.lexemes 0) := by
  split
  · rw [Expr.lexemes.eq_def]
    simp
  · rfl

/-! ## Expressions and patterns -/

section Expressions

variable {constant : Constant → Prop}

mutual

/-- An expression without formatted strings has no such lexemes. -/
theorem Expr.unformatted_lexemes (least : Nat) (e : Expr) (he : e.Holds constant fun _ => False) :
    unformatted (e.lexemes least) = true := by
  rw [Expr.lexemes.eq_def]
  dsimp only
  rw [apply_ite unformatted, unformatted_bracketed, ite_self]
  match e, he with
  | .name _ _, _ => rfl
  | .constant c _, _ => exact c.unformatted_lexemes
  | .tuple items _, he => simpa using Items.unformatted_lexemes items he
  | .list items _, he => simpa using Items.unformatted_lexemes items he
  | .dict entries _, he => simpa using Entries.unformatted_lexemes entries he
  | .member target _ _, he =>
    have htarget := Expr.unformatted_lexemes Strength.atom target he.1
    simp [htarget, Lexeme.isFormatted]
  | .subscript target index _, he =>
    have htarget := Expr.unformatted_lexemes Strength.atom target he.1
    have hindex := Expr.unformatted_lexemes 0 index he.2
    rw [unformatted_append, unformatted_bracketed, htarget, Bool.true_and]
    exact (unformatted_index index).trans hindex
  | .call callee args _, he =>
    have hcallee := Expr.unformatted_lexemes Strength.atom callee he.1
    have hargs := Items.unformatted_lexemes args he.2
    rw [unformatted_append, unformatted_bracketed, unformatted_separated, hcallee, hargs]
    rfl
  | .binary op left right _, he =>
    have hleft := Expr.unformatted_lexemes op.operandStrengths.1 left he.1
    have hright := Expr.unformatted_lexemes op.operandStrengths.2 right he.2
    simp [hleft, hright]
  | .unary .not operand _, he => exact Expr.unformatted_lexemes Strength.negation operand he
  | .unary .neg operand _, he => exact Expr.unformatted_lexemes Strength.sign operand he
  | .unary .pos operand _, he => exact Expr.unformatted_lexemes Strength.sign operand he
  | .conditional condition thenValue elseValue _, he =>
    have hcondition := Expr.unformatted_lexemes Strength.disjunction condition he.1
    have hthen := Expr.unformatted_lexemes Strength.disjunction thenValue he.2.1
    have helse := Expr.unformatted_lexemes Strength.conditional elseValue he.2.2
    simp [hcondition, hthen, helse, Lexeme.isFormatted]

theorem Items.unformatted_lexemes (items : List Expr)
    (h : ItemsHold constant (fun _ => False) items) :
    (itemLexemes items).all unformatted = true := by
  match items, h with
  | [], _ => rfl
  | item :: items, h =>
    rw [itemLexemes, List.all_cons, Expr.unformatted_lexemes 0 item h.1,
      Items.unformatted_lexemes items h.2]
    rfl

theorem Entries.unformatted_lexemes (entries : List Entry)
    (h : EntriesHold constant (fun _ => False) entries) :
    (entryLexemes entries).all unformatted = true := by
  match entries, h with
  | [], _ => rfl
  | .pair key value :: entries, h =>
    have hkey := Expr.unformatted_lexemes 0 key h.1.1
    have hvalue := Expr.unformatted_lexemes 0 value h.1.2
    rw [entryLexemes, List.all_cons, Entries.unformatted_lexemes entries h.2]
    simp [hkey, hvalue, Lexeme.isFormatted]

end

mutual

theorem Pattern.unformatted_lexemes (q : Pattern) (hq : q.Holds constant) :
    unformatted q.lexemes = true := by
  match q, hq with
  | .wildcard, _ | .capture _, _ => rfl
  | .value expr, hq => exact Expr.unformatted_lexemes 0 expr (Expr.IsPattern.holds hq)
  | .sequence items, hq =>
    rw [Pattern.lexemes, unformatted_tupleLexemes, Patterns.unformatted_lexemes items hq]
  | .alternatives options, hq =>
    rw [Pattern.lexemes, barred, unformatted_intercalate rfl,
      Patterns.unformatted_lexemes options hq.2]

theorem Patterns.unformatted_lexemes (patterns : List Pattern)
    (h : PatternsHold constant patterns) : (patternLexemes patterns).all unformatted = true := by
  match patterns, h with
  | [], _ => rfl
  | q :: patterns, h =>
    rw [patternLexemes, List.all_cons, Pattern.unformatted_lexemes q h.1,
      Patterns.unformatted_lexemes patterns h.2]
    rfl

end

end Expressions

/-! ## Statements -/

def Requirements.unformatted : Requirements :=
  ⟨fun e => Syntax.unformatted (e.lexemes 0) = true, fun q => Syntax.unformatted q.lexemes = true,
    fun _ => True⟩

def Row.unformatted : Row → Bool
  | .code _ ks => Syntax.unformatted ks
  | .comment _ => true

@[simp] theorem Row.unformatted_code (level : Nat) (ks : List Lexeme) :
    (Row.code level ks).unformatted = Syntax.unformatted ks :=
  rfl

theorem unformatted_lexemesAfter {value : Option Expr} (sign : Symbol)
    (h : ∀ e ∈ value, unformatted (e.lexemes 0) = true) :
    unformatted (lexemesAfter sign value) = true := by
  cases value with
  | none => rfl
  | some e => exact h e rfl

theorem unformatted_keywordLexemes {value : Option Expr} (word : Keyword)
    (h : ∀ e ∈ value, unformatted (e.lexemes 0) = true) :
    unformatted (keywordLexemes word value) = true := by
  cases value with
  | none => rfl
  | some e => exact h e rfl

theorem Param.unformatted_lexemes {p : Param} (hp : p.Meets .unformatted) :
    unformatted p.lexemes = true := by
  rw [Param.lexemes, unformatted_cons, unformatted_append,
    unformatted_lexemesAfter _ hp.annotation, unformatted_lexemesAfter _ hp.default]
  rfl

theorem unformatted_fieldLexemes (fields : List String) :
    unformatted (fieldLexemes fields) = true := by
  induction fields with
  | nil => rfl
  | cons field fields ih => exact ih

@[simp] theorem unformatted_dottedLexemes (parts : List String) :
    unformatted (dottedLexemes parts) = true := by
  cases parts with
  | nil => rfl
  | cons part parts => exact unformatted_fieldLexemes parts

@[simp] theorem Alias.unformatted_lexemes (a : Alias) (ks : List Lexeme) :
    unformatted (a.lexemes ks) = unformatted ks := by
  rw [Alias.lexemes, unformatted_append]
  cases a.rename <;> simp [Lexeme.isFormatted]

theorem FunctionHeader.unformatted_rows {h : FunctionHeader} (hh : h.Meets .unformatted)
    (level : Nat) : (h.rows level).all Row.unformatted = true := by
  have hparams : (h.params.map Param.lexemes).all unformatted = true := by
    rw [List.all_map, List.all_eq_true]
    exact fun p hp => Param.unformatted_lexemes (hh.params p hp)
  have hdecorators : (h.decorators.map fun d => Row.code level (.symbol .atSign :: d.lexemes 0)).all
      Row.unformatted = true := by
    rw [List.all_map, List.all_eq_true]
    exact hh.decorators
  have hresult := unformatted_lexemesAfter .arrow hh.returnType
  rw [FunctionHeader.rows, List.all_append, hdecorators]
  simp [FunctionHeader.lexemes, hparams, hresult, Lexeme.isFormatted]

mutual

theorem Stmt.unformatted_rows (s : Stmt) (hs : s.Meets .unformatted) (level : Nat)
    (keyword : Keyword) : (s.rows level keyword).all Row.unformatted = true := by
  match s, hs with
  | .function header body, hs =>
    rw [Stmt.rows, List.all_append, FunctionHeader.unformatted_rows hs.1,
      Body.unformatted_rows body hs.2]
    rfl
  | .branch condition thenBlock none _, hs =>
    have hcondition : unformatted (condition.lexemes 0) = true := hs.1
    have hthen := Body.unformatted_rows thenBlock hs.2.1 (level + 1)
    simp [Stmt.rows, hcondition, hthen, Lexeme.isFormatted]
  | .branch condition thenBlock (some block) _, hs =>
    have hcondition : unformatted (condition.lexemes 0) = true := hs.1
    have hthen := Body.unformatted_rows thenBlock hs.2.1 (level + 1)
    have helif := Block.unformatted_rows block hs.2.2 level .elifKw
    have helse := Body.unformatted_rows block hs.2.2 (level + 1)
    rw [Stmt.rows, List.all_cons, List.all_append, hthen]
    by_cases hchain : isElif block
    · simp [hchain, hcondition, helif, Lexeme.isFormatted]
    · simp [hchain, hcondition, helse, Lexeme.isFormatted]
  | .whileLoop condition body _, hs =>
    have hcondition : unformatted (condition.lexemes 0) = true := hs.1
    have hbody := Body.unformatted_rows body hs.2 (level + 1)
    simp [Stmt.rows, hcondition, hbody, Lexeme.isFormatted]
  | .forLoop target iterable body _, hs =>
    have htarget : unformatted (target.lexemes 0) = true := hs.1
    have hiterable : unformatted (iterable.lexemes 0) = true := hs.2.1
    have hbody := Body.unformatted_rows body hs.2.2 (level + 1)
    simp [Stmt.rows, htarget, hiterable, hbody, Lexeme.isFormatted]
  | .matchOn subject cases _, hs =>
    have hsubject : unformatted (subject.lexemes 0) = true := hs.1
    have hcases := Cases.unformatted_rows cases hs.2 (level + 1)
    simp [Stmt.rows, hsubject, hcases, Lexeme.isFormatted]
  | .returnValue value _, hs =>
    simp [Stmt.rows, unformatted_keywordLexemes .returnKw hs]
  | .raise value _, hs =>
    simp [Stmt.rows, unformatted_keywordLexemes .raiseKw hs]
  | .assign target value _, hs =>
    have htarget : unformatted (target.lexemes 0) = true := hs.1.1
    have hvalue : unformatted (value.lexemes 0) = true := hs.2
    simp [Stmt.rows, htarget, hvalue, Lexeme.isFormatted]
  | .augment op target value _, hs =>
    have htarget : unformatted (target.lexemes 0) = true := hs.2.1.1
    have hvalue : unformatted (value.lexemes 0) = true := hs.2.2
    simp [Stmt.rows, htarget, hvalue, Lexeme.isFormatted]
  | .importModules names _, _ => simp [Stmt.rows, Lexeme.isFormatted]
  | .importNames level' module names _, _ =>
    have hmodule : unformatted (module.elim [] fun name => dottedLexemes (nameParts name)) = true := by
      cases module <;> simp
    have hdots : unformatted (List.replicate level' (.symbol .dot)) = true :=
      unformatted_replicate level' rfl
    simp [Stmt.rows, hmodule, hdots, Lexeme.isFormatted]
  | .expr value, hs =>
    have hvalue : unformatted (value.lexemes 0) = true := hs
    simp [Stmt.rows, hvalue]
  | .comment _, _ | .pass, _ | .breakLoop, _ | .continueLoop, _ => rfl

theorem Body.unformatted_rows (stmts : List Stmt) (h : StmtsMeet .unformatted stmts)
    (level : Nat) : (bodyRows level stmts).all Row.unformatted = true := by
  match stmts, h with
  | [], _ => rfl
  | s :: stmts, h =>
    rw [bodyRows, List.all_append, Stmt.unformatted_rows s h.1, Block.unformatted_rows stmts h.2]
    rfl

theorem Block.unformatted_rows (stmts : List Stmt) (h : StmtsMeet .unformatted stmts)
    (level : Nat) (keyword : Keyword) :
    (blockRows level keyword stmts).all Row.unformatted = true := by
  match stmts, h with
  | [], _ => rfl
  | s :: stmts, h =>
    rw [blockRows, List.all_append, Stmt.unformatted_rows s h.1, Block.unformatted_rows stmts h.2]
    rfl

theorem Cases.unformatted_rows (cases : List Case) (h : CasesMeet .unformatted cases)
    (level : Nat) : (caseRows level cases).all Row.unformatted = true := by
  match cases, h with
  | [], _ => rfl
  | .on pattern body :: cases, h =>
    have hpattern : unformatted pattern.lexemes = true := h.1.1
    have hbody := Body.unformatted_rows body h.1.2 (level + 1)
    have hcases := Cases.unformatted_rows cases h.2 level
    simp [caseRows, hpattern, hbody, hcases, Lexeme.isFormatted]

end

theorem unformatted_rowKinds {rows : List Row} (h : rows.all Row.unformatted = true)
    (current : Nat) : unformatted (rowKinds current rows) = true := by
  induction rows generalizing current with
  | nil =>
    rw [rowKinds, unformatted_append, unformatted_replicate current rfl]
    rfl
  | cons row rows ih =>
    rw [List.all_cons, Bool.and_eq_true] at h
    cases row with
    | comment text => exact ih h.2 current
    | code level ks =>
      have hks : unformatted ks = true := h.1
      have hlayout : unformatted (layoutKinds current level) = true := by
        rw [layoutKinds]
        split
        · rfl
        · exact unformatted_replicate _ rfl
      simp [rowKinds, hlayout, hks, ih h.2, Lexeme.isFormatted]

theorem Vocabulary.requirements_unformatted (v : Vocabulary) :
    v.requirements.Implies .unformatted where
  expr e h := Expr.unformatted_lexemes 0 e h
  pattern q h := Pattern.unformatted_lexemes q h
  comment _ _ := trivial

/-- The rows of what is read from tokens of a vocabulary have no formatted strings. -/
theorem Vocabulary.unformatted_bodyRows (v : Vocabulary) {body : List Stmt}
    (h : StmtsMeet v.requirements body) : (bodyRows 0 body).all Row.unformatted = true :=
  Body.unformatted_rows body (StmtsMeet.mono v.requirements_unformatted body h) 0

end StagedScript.Syntax
