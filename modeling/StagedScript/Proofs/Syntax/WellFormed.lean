import StagedScript.Proofs.Syntax.Legible
import StagedScript.Syntax.Parser.Statement

/-!
# Well-formed patterns and statements

What every statement that is read from a text satisfies: names are names,
something is imported by an import, the targets of assignments can be assigned
to, and after a parameter with a default all parameters have one.  What is
required of the expressions, the patterns and the comments in it is left open.
-/

namespace StagedScript.Syntax

open Text

/-! ## Patterns -/

def Expr.IsDotted : Expr → Prop
  | .name id _ => isName id = true ∧ id ≠ "_"
  | .member target field _ => target.IsDotted ∧ isName field = true
  | _ => False

section Patterns

variable (constant : Constant → Prop)

/-- The expression can stand as a pattern: a literal that satisfies the condition or a name with a
dot. -/
def Expr.IsPattern : Expr → Prop
  | .constant c _ => constant c
  | .member target field _ => target.IsDotted ∧ isName field = true
  | _ => False

mutual

/-- The pattern can be written, and the condition holds of its literals. -/
def Pattern.Holds : Pattern → Prop
  | .wildcard => True
  | .capture name => isName name = true ∧ name ≠ "_"
  | .value expr => expr.IsPattern constant
  | .sequence items => PatternsHold items
  | .alternatives options => 2 ≤ options.length ∧ PatternsHold options

def PatternsHold : List Pattern → Prop
  | [] => True
  | pattern :: patterns => pattern.Holds ∧ PatternsHold patterns

end

variable {constant} {constant' : Constant → Prop}

theorem patternsHold_iff {patterns : List Pattern} :
    PatternsHold constant patterns ↔ ∀ q ∈ patterns, q.Holds constant := by
  induction patterns with
  | nil => simp [PatternsHold]
  | cons q patterns ih => simp [PatternsHold, ih]

mutual

theorem Pattern.Holds.mono (himp : ∀ c, constant c → constant' c) (q : Pattern)
    (h : q.Holds constant) : q.Holds constant' :=
  match q, h with
  | .wildcard, _ => trivial
  | .capture _, h => h
  | .value (.constant c _), h => himp c h
  | .value (.member _ _ _), h => h
  | .sequence items, h => PatternsHold.mono himp items h
  | .alternatives options, h => ⟨h.1, PatternsHold.mono himp options h.2⟩

theorem PatternsHold.mono (himp : ∀ c, constant c → constant' c) (patterns : List Pattern)
    (h : PatternsHold constant patterns) : PatternsHold constant' patterns :=
  match patterns, h with
  | [], _ => trivial
  | q :: patterns, h => ⟨Pattern.Holds.mono himp q h.1, PatternsHold.mono himp patterns h.2⟩

end

mutual

theorem Pattern.Holds.and (q : Pattern) (h : q.Holds constant) (h' : q.Holds constant') :
    q.Holds fun c => constant c ∧ constant' c :=
  match q, h, h' with
  | .wildcard, _, _ => trivial
  | .capture _, h, _ => h
  | .value (.constant _ _), h, h' => ⟨h, h'⟩
  | .value (.member _ _ _), h, _ => h
  | .sequence items, h, h' => PatternsHold.and items h h'
  | .alternatives options, h, h' => ⟨h.1, PatternsHold.and options h.2 h'.2⟩

theorem PatternsHold.and (patterns : List Pattern) (h : PatternsHold constant patterns)
    (h' : PatternsHold constant' patterns) :
    PatternsHold (fun c => constant c ∧ constant' c) patterns :=
  match patterns, h, h' with
  | [], _, _ => trivial
  | q :: patterns, h, h' => ⟨Pattern.Holds.and q h.1 h'.1, PatternsHold.and patterns h.2 h'.2⟩

end

end Patterns

/-! ## Statements -/

def nameParts (name : String) : List String :=
  (name.toList.splitOn '.').map String.ofList

theorem nameParts_ne_nil (name : String) : nameParts name ≠ [] := by
  simp [nameParts, List.splitOn_ne_nil]

theorem intercalate_dots (part : List Char) (parts : List (List Char)) :
    ['.'].intercalate (part :: parts) = part ++ parts.flatMap fun p => '.' :: p := by
  induction parts generalizing part with
  | nil => simp
  | cons part' parts ih =>
    rw [List.intercalate_cons_cons, ih]
    simp

theorem toList_nameParts (name : String) : name.toList =
    match nameParts name with
    | [] => []
    | first :: others => first.toList ++ others.flatMap fun part => '.' :: part.toList := by
  have htext : name.toList = ['.'].intercalate ((nameParts name).map String.toList) := by
    rw [nameParts, List.map_map]
    simp [Function.comp_def, List.intercalate_splitOn]
  rw [htext]
  cases nameParts name with
  | nil => rfl
  | cons first others => rw [List.map_cons, intercalate_dots, List.flatMap_map]

/-- The parts of a dotted name are the names that it was put together from. -/
theorem nameParts_eq {name first : String} {others : List String}
    (h : ∀ part ∈ first :: others, isName part = true)
    (htext : name.toList = first.toList ++ others.flatMap fun part => '.' :: part.toList) :
    nameParts name = first :: others := by
  have hjoined : name.toList = ['.'].intercalate ((first :: others).map String.toList) := by
    rw [htext, List.map_cons, intercalate_dots, List.flatMap_map]
  have hdots : ∀ part ∈ (first :: others).map String.toList, '.' ∉ part := by
    intro part hpart hdot
    obtain ⟨name, hname, rfl⟩ := List.mem_map.mp hpart
    have hparts := h name hname
    simp only [isName, Bool.and_eq_true, List.all_eq_true] at hparts
    exact absurd (hparts.1.2 '.' hdot) (by decide +kernel)
  rw [nameParts, hjoined, List.splitOn_intercalate '.' hdots (by simp)]
  simp

def IsDottedName (name : String) : Prop :=
  ∀ part ∈ nameParts name, isName part = true

def Alias.ProperRename (a : Alias) : Prop :=
  ∀ new ∈ a.rename, isName new = true

/-- What is required of the parts of a statement. -/
structure Requirements where
  expr : Expr → Prop
  pattern : Pattern → Prop
  comment : String → Prop

section Statements

variable (r : Requirements)

/-- The parameter has a name, and its expressions are as required. -/
structure Param.Meets (p : Param) : Prop where
  name : isName p.name = true
  annotation : ∀ e ∈ p.annotation, r.expr e
  default : ∀ e ∈ p.default, r.expr e

/-- The function has a name and can be called with fewer arguments, the last ones left out. -/
structure FunctionHeader.Meets (h : FunctionHeader) : Prop where
  name : isName h.name = true
  decorators : ∀ d ∈ h.decorators, r.expr d
  params : ∀ p ∈ h.params, p.Meets r
  defaults : h.params.Pairwise fun p q => p.default.isSome = true → q.default.isSome = true
  returnType : ∀ e ∈ h.returnType, r.expr e

mutual

/-- The statement can be written, and its parts are as required. -/
def Stmt.Meets : Stmt → Prop
  | .function header body => header.Meets r ∧ StmtsMeet body
  | .branch condition thenBlock elseBlock _ =>
    r.expr condition ∧ StmtsMeet thenBlock ∧
      match elseBlock with
      | none => True
      | some block => StmtsMeet block
  | .whileLoop condition body _ => r.expr condition ∧ StmtsMeet body
  | .forLoop target iterable body _ => r.expr target ∧ r.expr iterable ∧ StmtsMeet body
  | .matchOn subject cases _ => r.expr subject ∧ CasesMeet cases
  | .returnValue value _ | .raise value _ => ∀ e ∈ value, r.expr e
  | .assign target value _ => (r.expr target ∧ Parser.badTarget? target = none) ∧ r.expr value
  | .augment op target value _ =>
    op ∈ [BinaryOp.add, .sub, .mul] ∧ (r.expr target ∧ Parser.badTarget? target = none) ∧
      r.expr value
  | .importModules names _ =>
    names ≠ [] ∧ ∀ a ∈ names, IsDottedName a.name ∧ a.ProperRename
  | .importNames level module names _ =>
    (level = 0 → module ≠ none) ∧ (∀ name ∈ module, IsDottedName name) ∧
      names ≠ [] ∧ ∀ a ∈ names, isName a.name = true ∧ a.ProperRename
  | .expr value => r.expr value
  | .comment text => r.comment text
  | .pass | .breakLoop | .continueLoop => True

def StmtsMeet : List Stmt → Prop
  | [] => True
  | stmt :: stmts => stmt.Meets ∧ StmtsMeet stmts

def CasesMeet : List Case → Prop
  | [] => True
  | .on pattern body :: cases => (r.pattern pattern ∧ StmtsMeet body) ∧ CasesMeet cases

end

variable {r} {r' : Requirements}

/-- Requirements that follow from others. -/
structure Requirements.Implies (r r' : Requirements) : Prop where
  expr : ∀ e, r.expr e → r'.expr e
  pattern : ∀ q, r.pattern q → r'.pattern q
  comment : ∀ text, r.comment text → r'.comment text

theorem FunctionHeader.Meets.mono (himp : r.Implies r') {h : FunctionHeader} (hh : h.Meets r) :
    h.Meets r' where
  name := hh.name
  decorators d hd := himp.expr d (hh.decorators d hd)
  params p hp :=
    have hparam := hh.params p hp
    ⟨hparam.name, fun e he => himp.expr e (hparam.annotation e he),
      fun e he => himp.expr e (hparam.default e he)⟩
  defaults := hh.defaults
  returnType e he := himp.expr e (hh.returnType e he)

mutual

theorem Stmt.Meets.mono (himp : r.Implies r') (s : Stmt) (h : s.Meets r) : s.Meets r' :=
  match s, h with
  | .function _ body, h => ⟨h.1.mono himp, StmtsMeet.mono himp body h.2⟩
  | .branch condition thenBlock none _, h =>
    ⟨himp.expr condition h.1, StmtsMeet.mono himp thenBlock h.2.1, trivial⟩
  | .branch condition thenBlock (some block) _, h =>
    ⟨himp.expr condition h.1, StmtsMeet.mono himp thenBlock h.2.1,
      StmtsMeet.mono himp block h.2.2⟩
  | .whileLoop condition body _, h => ⟨himp.expr condition h.1, StmtsMeet.mono himp body h.2⟩
  | .forLoop target iterable body _, h =>
    ⟨himp.expr target h.1, himp.expr iterable h.2.1, StmtsMeet.mono himp body h.2.2⟩
  | .matchOn subject cases _, h => ⟨himp.expr subject h.1, CasesMeet.mono himp cases h.2⟩
  | .returnValue _ _, h | .raise _ _, h => fun e he => himp.expr e (h e he)
  | .assign target value _, h => ⟨⟨himp.expr target h.1.1, h.1.2⟩, himp.expr value h.2⟩
  | .augment _ target value _, h =>
    ⟨h.1, ⟨himp.expr target h.2.1.1, h.2.1.2⟩, himp.expr value h.2.2⟩
  | .importModules _ _, h | .importNames _ _ _ _, h => h
  | .expr value, h => himp.expr value h
  | .comment text, h => himp.comment text h
  | .pass, _ | .breakLoop, _ | .continueLoop, _ => trivial

theorem StmtsMeet.mono (himp : r.Implies r') (stmts : List Stmt) (h : StmtsMeet r stmts) :
    StmtsMeet r' stmts :=
  match stmts, h with
  | [], _ => trivial
  | s :: stmts, h => ⟨Stmt.Meets.mono himp s h.1, StmtsMeet.mono himp stmts h.2⟩

theorem CasesMeet.mono (himp : r.Implies r') (cases : List Case) (h : CasesMeet r cases) :
    CasesMeet r' cases :=
  match cases, h with
  | [], _ => trivial
  | .on pattern body :: cases, h =>
    ⟨⟨himp.pattern pattern h.1.1, StmtsMeet.mono himp body h.1.2⟩, CasesMeet.mono himp cases h.2⟩

end

def Requirements.and (r r' : Requirements) : Requirements :=
  ⟨fun e => r.expr e ∧ r'.expr e, fun q => r.pattern q ∧ r'.pattern q,
    fun text => r.comment text ∧ r'.comment text⟩

theorem FunctionHeader.Meets.and {h : FunctionHeader} (hh : h.Meets r) (hh' : h.Meets r') :
    h.Meets (r.and r') where
  name := hh.name
  decorators d hd := ⟨hh.decorators d hd, hh'.decorators d hd⟩
  params p hp :=
    have hparam := hh.params p hp
    have hparam' := hh'.params p hp
    ⟨hparam.name, fun e he => ⟨hparam.annotation e he, hparam'.annotation e he⟩,
      fun e he => ⟨hparam.default e he, hparam'.default e he⟩⟩
  defaults := hh.defaults
  returnType e he := ⟨hh.returnType e he, hh'.returnType e he⟩

mutual

theorem Stmt.Meets.and (s : Stmt) (h : s.Meets r) (h' : s.Meets r') : s.Meets (r.and r') :=
  match s, h, h' with
  | .function _ body, h, h' => ⟨h.1.and h'.1, StmtsMeet.and body h.2 h'.2⟩
  | .branch _ thenBlock none _, h, h' =>
    ⟨⟨h.1, h'.1⟩, StmtsMeet.and thenBlock h.2.1 h'.2.1, trivial⟩
  | .branch _ thenBlock (some block) _, h, h' =>
    ⟨⟨h.1, h'.1⟩, StmtsMeet.and thenBlock h.2.1 h'.2.1, StmtsMeet.and block h.2.2 h'.2.2⟩
  | .whileLoop _ body _, h, h' => ⟨⟨h.1, h'.1⟩, StmtsMeet.and body h.2 h'.2⟩
  | .forLoop _ _ body _, h, h' =>
    ⟨⟨h.1, h'.1⟩, ⟨h.2.1, h'.2.1⟩, StmtsMeet.and body h.2.2 h'.2.2⟩
  | .matchOn _ cases _, h, h' => ⟨⟨h.1, h'.1⟩, CasesMeet.and cases h.2 h'.2⟩
  | .returnValue _ _, h, h' | .raise _ _, h, h' => fun e he => ⟨h e he, h' e he⟩
  | .assign _ _ _, h, h' => ⟨⟨⟨h.1.1, h'.1.1⟩, h.1.2⟩, h.2, h'.2⟩
  | .augment _ _ _ _, h, h' => ⟨h.1, ⟨⟨h.2.1.1, h'.2.1.1⟩, h.2.1.2⟩, h.2.2, h'.2.2⟩
  | .importModules _ _, h, _ | .importNames _ _ _ _, h, _ => h
  | .expr _, h, h' | .comment _, h, h' => ⟨h, h'⟩
  | .pass, _, _ | .breakLoop, _, _ | .continueLoop, _, _ => trivial

theorem StmtsMeet.and (stmts : List Stmt) (h : StmtsMeet r stmts) (h' : StmtsMeet r' stmts) :
    StmtsMeet (r.and r') stmts :=
  match stmts, h, h' with
  | [], _, _ => trivial
  | s :: stmts, h, h' => ⟨Stmt.Meets.and s h.1 h'.1, StmtsMeet.and stmts h.2 h'.2⟩

theorem CasesMeet.and (cases : List Case) (h : CasesMeet r cases) (h' : CasesMeet r' cases) :
    CasesMeet (r.and r') cases :=
  match cases, h, h' with
  | [], _, _ => trivial
  | .on _ body :: cases, h, h' =>
    ⟨⟨⟨h.1.1, h'.1.1⟩, StmtsMeet.and body h.1.2 h'.1.2⟩, CasesMeet.and cases h.2 h'.2⟩

end

end Statements

mutual

/-- Whether an expression can be assigned to does not depend on places. -/
theorem badTarget?_strip {constant : Constant → Expr}
    (hconstant : ∀ c, (Parser.badTarget? (constant c)).isSome = true) (e : Expr) :
    (Parser.badTarget? (e.strip constant)).isSome = (Parser.badTarget? e).isSome := by
  match e with
  | .constant c _ => exact hconstant c
  | .name _ _ | .formatted _ _ | .dict _ _ | .member _ _ _ | .subscript _ _ _ | .call _ _ _
  | .binary _ _ _ _ | .unary _ _ _ | .conditional _ _ _ _ => rfl
  | .tuple items _ | .list items _ => exact badTargetIn?_strip hconstant items

theorem badTargetIn?_strip {constant : Constant → Expr}
    (hconstant : ∀ c, (Parser.badTarget? (constant c)).isSome = true) (items : List Expr) :
    (Parser.badTarget?.badTargetIn? (stripItems constant items)).isSome =
      (Parser.badTarget?.badTargetIn? items).isSome := by
  match items with
  | [] => rfl
  | item :: items =>
    have hfirst := badTarget?_strip hconstant item
    have hothers := badTargetIn?_strip hconstant items
    simp only [stripItems, Parser.badTarget?.badTargetIn?, Option.isSome_or] at hfirst hothers ⊢
    rw [hothers, hfirst]

end

/-- The text of the statement is cut into its lexemes: comments have one line. -/
def Requirements.worded : Requirements :=
  ⟨Expr.Worded, Pattern.Holds fun _ => True, fun text => '\n' ∉ text.toList⟩

/-- The literal can stand in a pattern and be read again. -/
def Constant.LegiblePattern (c : Constant) : Prop :=
  c.Legible ∧ ∀ x, c = .float x → Decimal.isFinite x = true

/-- The text of the statement can be read, and there are no comments in it. -/
def Requirements.legible : Requirements :=
  ⟨Expr.Legible, Pattern.Holds Constant.LegiblePattern, fun _ => False⟩

/-- The text of the statement can be read, and its comments are the same when they are read. -/
def Requirements.readable : Requirements :=
  { legible with comment := IsCommentText }

theorem Requirements.readable_of_legible : Requirements.legible.Implies .readable where
  expr _ h := h
  pattern _ h := h
  comment _ h := h.elim

theorem Requirements.worded_of_readable : Requirements.readable.Implies .worded where
  expr _ h := h.worded
  pattern q h := Pattern.Holds.mono (fun _ _ => trivial) q h
  comment _ h := h.1

theorem Requirements.worded_of_legible : Requirements.legible.Implies .worded where
  expr _ h := h.worded
  pattern q h := Pattern.Holds.mono (fun _ _ => trivial) q h
  comment _ h := h.elim

mutual

/-- The targets of loops stand without parentheses, and every match statement has a case. -/
def Stmt.isRegular : Stmt → Bool
  | .function _ body => areRegular body
  | .branch _ thenBlock elseBlock _ =>
    areRegular thenBlock &&
      match elseBlock with
      | none => true
      | some block => areRegular block
  | .whileLoop _ body _ => areRegular body
  | .forLoop target _ body _ => target.strength == Strength.atom && areRegular body
  | .matchOn _ cases _ => !cases.isEmpty && areRegularCases cases
  | _ => true

def areRegular : List Stmt → Bool
  | [] => true
  | stmt :: stmts => stmt.isRegular && areRegular stmts

def areRegularCases : List Case → Bool
  | [] => true
  | .on _ body :: cases => areRegular body && areRegularCases cases

end

/-! ## Tidy trees -/

def Stmt.hasBlock : Stmt → Bool
  | .function _ _ | .branch _ _ _ _ | .whileLoop _ _ _ | .forLoop _ _ _ _ | .matchOn _ _ _ => true
  | _ => false

def startsWithComment (stmts : List Stmt) : Bool :=
  stmts.head?.any Stmt.isComment

/-- Whether a block has something else than comments, if it has anything. -/
def hasMoreThanComments (body : Block) : Bool :=
  body.isEmpty || body.any fun stmt => !stmt.isComment

mutual

/-- No comment comes right after a statement with a block, where it would be read as a part of the
block, and no block in the statement has comments only. -/
def Stmt.isTidy : Stmt → Bool
  | .function _ body => hasMoreThanComments body && areTidy body
  | .branch _ thenBlock elseBlock _ =>
    (hasMoreThanComments thenBlock && areTidy thenBlock) &&
      match elseBlock with
      | none => true
      | some block => hasMoreThanComments block && areTidy block
  | .whileLoop _ body _ => hasMoreThanComments body && areTidy body
  | .forLoop _ _ body _ => hasMoreThanComments body && areTidy body
  | .matchOn _ cases _ => casesTidy cases
  | _ => true

def areTidy : List Stmt → Bool
  | [] => true
  | stmt :: stmts =>
    stmt.isTidy && !(stmt.hasBlock && startsWithComment stmts) && areTidy stmts

def casesTidy : List Case → Bool
  | [] => true
  | .on _ body :: cases => (hasMoreThanComments body && areTidy body) && casesTidy cases

end

theorem isComment_of_legible {s : Stmt} (h : s.Meets .legible) : s.isComment = false := by
  match s, h with
  | .comment _, h => exact h.elim
  | .function _ _, _ | .branch _ _ _ _, _ | .whileLoop _ _ _, _ | .forLoop _ _ _ _, _
  | .matchOn _ _ _, _ | .returnValue _ _, _ | .raise _ _, _ | .assign _ _ _, _
  | .augment _ _ _ _, _ | .importModules _ _, _ | .importNames _ _ _ _, _ | .expr _, _ | .pass, _
  | .breakLoop, _ | .continueLoop, _ => rfl

theorem hasMoreThanComments_of_legible {body : Block} (h : StmtsMeet .legible body) :
    hasMoreThanComments body = true := by
  match body, h with
  | [], _ => rfl
  | s :: stmts, h => simp [hasMoreThanComments, isComment_of_legible h.1]

theorem startsWithComment_of_legible {body : Block} (h : StmtsMeet .legible body) :
    startsWithComment body = false := by
  match body, h with
  | [], _ => rfl
  | s :: stmts, h => exact isComment_of_legible h.1

theorem bodyTidy_of_legible {body : Block} (h : StmtsMeet .legible body)
    (htidy : areTidy body = true) : (hasMoreThanComments body && areTidy body) = true :=
  Bool.and_eq_true_iff.mpr ⟨hasMoreThanComments_of_legible h, htidy⟩

mutual

/-- A tree without comments is tidy. -/
theorem Stmt.isTidy_of_legible (s : Stmt) (h : s.Meets .legible) : s.isTidy = true := by
  match s, h with
  | .function _ body, h | .whileLoop _ body _, h =>
    exact bodyTidy_of_legible h.2 (areTidy_of_legible body h.2)
  | .forLoop _ _ body _, h => exact bodyTidy_of_legible h.2.2 (areTidy_of_legible body h.2.2)
  | .branch _ thenBlock none _, h =>
    have hthen := bodyTidy_of_legible h.2.1 (areTidy_of_legible thenBlock h.2.1)
    exact Bool.and_eq_true_iff.mpr ⟨hthen, rfl⟩
  | .branch _ thenBlock (some block) _, h =>
    have hthen := bodyTidy_of_legible h.2.1 (areTidy_of_legible thenBlock h.2.1)
    have helse := bodyTidy_of_legible h.2.2 (areTidy_of_legible block h.2.2)
    exact Bool.and_eq_true_iff.mpr ⟨hthen, helse⟩
  | .matchOn _ cases _, h => exact casesTidy_of_legible cases h.2
  | .returnValue _ _, _ | .raise _ _, _ | .assign _ _ _, _ | .augment _ _ _ _, _
  | .importModules _ _, _ | .importNames _ _ _ _, _ | .expr _, _ | .comment _, _ | .pass, _
  | .breakLoop, _ | .continueLoop, _ => rfl

theorem areTidy_of_legible (stmts : List Stmt) (h : StmtsMeet .legible stmts) :
    areTidy stmts = true := by
  match stmts, h with
  | [], _ => rfl
  | s :: stmts, h =>
    rw [areTidy, startsWithComment_of_legible h.2, s.isTidy_of_legible h.1,
      areTidy_of_legible stmts h.2, Bool.and_false]
    rfl

theorem casesTidy_of_legible (cases : List Case) (h : CasesMeet .legible cases) :
    casesTidy cases = true := by
  match cases, h with
  | [], _ => rfl
  | .on _ body :: cases, h =>
    have hbody := bodyTidy_of_legible h.1.2 (areTidy_of_legible body h.1.2)
    exact Bool.and_eq_true_iff.mpr ⟨hbody, casesTidy_of_legible cases h.2⟩

end

end StagedScript.Syntax
