import Mathlib.Data.List.ReduceOption
import StagedScript.Proofs.Syntax.LineLexing

/-!
# The comments of trees and of their texts

A comment is a statement of its own in the tree, except before, between and after
the cases of a match statement, where the tree has no place for one.  The printed
text of a tree has the comments of the tree, in their order.
-/

namespace StagedScript.Syntax

open Text

def Lexeme.comment? : Lexeme → Option String
  | .comment text => some text
  | _ => none

def commentTexts (ks : List Lexeme) : List String :=
  ks.filterMap Lexeme.comment?

theorem commentTexts_append (ks ks' : List Lexeme) :
    commentTexts (ks ++ ks') = commentTexts ks ++ commentTexts ks' :=
  List.filterMap_append

theorem commentTexts_of_forall {ks : List Lexeme} (h : ∀ k ∈ ks, k.comment? = none) :
    commentTexts ks = [] :=
  List.filterMap_eq_nil_iff.mpr h

/-! ## Comments in trees -/

/-- Where a statement stands: its position in its block, after the place of the statement or case
that the block belongs to and the number of the block there. -/
abbrev Place := List Nat

mutual

/-- The comments of a statement and their places, in their order; `none` is a gap before the first
case of a match statement or after a case, where the tree has no place for a comment. -/
def Stmt.commentPlaces (place : Place) : Stmt → List (Option (Place × String))
  | .function _ body | .whileLoop _ body _ | .forLoop _ _ body _ =>
    blockPlaces (place ++ [0]) 0 body
  | .branch _ thenBlock elseBlock _ =>
    blockPlaces (place ++ [0]) 0 thenBlock ++
      match elseBlock with
      | none => []
      | some block => blockPlaces (place ++ [1]) 0 block
  | .matchOn _ cases _ => none :: casePlaces place 0 cases
  | .comment text => [some (place, text)]
  | _ => []

/-- The same of statements that follow each other, from the position of the first one on. -/
def blockPlaces (place : Place) (position : Nat) : List Stmt → List (Option (Place × String))
  | [] => []
  | stmt :: stmts =>
    stmt.commentPlaces (place ++ [position]) ++ blockPlaces place (position + 1) stmts

/-- The same of cases, from the number of the first one on. -/
def casePlaces (place : Place) (number : Nat) : List Case → List (Option (Place × String))
  | [] => []
  | .on _ body :: cases =>
    blockPlaces (place ++ [number]) 0 body ++ none :: casePlaces place (number + 1) cases

end

/-- The comments of a module and their places, with the gaps where comments have no place. -/
def commentPlaces (body : Block) : List (Option (Place × String)) :=
  blockPlaces [] 0 body

/-- The comments of a module and their places. -/
def placedComments (body : Block) : List (Place × String) :=
  (commentPlaces body).reduceOption

/-- The texts are those of the comments at the places, with any others at the gaps. -/
inductive Fills : List (Option (Place × String)) → List String → Prop
  | nil : Fills [] []
  | comment (place : Place) (text : String) {places : List (Option (Place × String))}
      {texts : List String} : Fills places texts → Fills (some (place, text) :: places) (text :: texts)
  | gap (dropped : List String) {places : List (Option (Place × String))} {texts : List String} :
    Fills places texts → Fills (none :: places) (dropped ++ texts)

namespace Fills

variable {places places' : List (Option (Place × String))} {texts texts' : List String}

theorem append (h : Fills places texts) (h' : Fills places' texts') :
    Fills (places ++ places') (texts ++ texts') := by
  induction h with
  | nil => exact h'
  | comment place text _ ih => exact .comment place text ih
  | gap dropped _ ih =>
    rw [List.append_assoc]
    exact .gap dropped ih

/-- A gap takes any more comments. -/
theorem more (dropped : List String) (h : Fills (none :: places) texts) :
    Fills (none :: places) (dropped ++ texts) := by
  cases h with
  | gap dropped' h =>
    rw [← List.append_assoc]
    exact .gap (dropped ++ dropped') h

/-- Comments in front of a block. -/
theorem comments (texts : List String) {body : Block} {place : Place}
    (h : ∀ position, Fills (blockPlaces place position body) texts') (position : Nat) :
    Fills (blockPlaces place position (texts.map .comment ++ body)) (texts ++ texts') := by
  induction texts generalizing position with
  | nil => exact h position
  | cons text texts ih => exact .comment _ text (ih (position + 1))

/-- Without gaps the texts are those of the comments. -/
theorem eq_of_no_gap (h : Fills places texts) (hgap : none ∉ places) :
    texts = places.reduceOption.map Prod.snd := by
  induction h with
  | nil => rfl
  | comment place text _ ih =>
    rw [List.reduceOption_cons_of_some, List.map_cons,
      ← ih fun hmem => hgap (List.mem_cons_of_mem _ hmem)]
  | gap dropped _ _ => exact absurd List.mem_cons_self hgap

end Fills

/-- No comment stands for a block without statements. -/
def Outline.AddsNoComment (o : Outline) : Prop :=
  ∀ place, blockPlaces place 0 o.emptyBlock = []

section Outlines

variable {o : Outline}

mutual

/-- The comments of a statement and their places are the same in an outline. -/
theorem Stmt.commentPlaces_strip (ho : o.AddsNoComment) (s : Stmt) (place : Place) :
    (s.strip o).commentPlaces place = s.commentPlaces place := by
  match s with
  | .function _ body | .whileLoop _ body _ | .forLoop _ _ body _ =>
    exact blockPlaces_strip ho body _
  | .branch _ thenBlock none _ => exact congrArg (· ++ []) (blockPlaces_strip ho thenBlock _)
  | .branch _ thenBlock (some block) _ =>
    exact congrArg₂ (· ++ ·) (blockPlaces_strip ho thenBlock _) (blockPlaces_strip ho block _)
  | .matchOn _ cases _ => exact congrArg (none :: ·) (casePlaces_strip ho cases place 0)
  | .returnValue _ _ | .raise _ _ | .assign _ _ _ | .augment _ _ _ _ | .importModules _ _
  | .importNames _ _ _ _ | .expr _ | .comment _ | .pass | .breakLoop | .continueLoop => rfl

theorem blockPlaces_strip (ho : o.AddsNoComment) (body : List Stmt) (place : Place) :
    blockPlaces place 0 (stripBlock o body) = blockPlaces place 0 body := by
  match body with
  | [] => exact ho place
  | s :: stmts =>
    exact congrArg₂ (· ++ ·) (s.commentPlaces_strip ho _) (stmtsPlaces_strip ho stmts place 1)

theorem stmtsPlaces_strip (ho : o.AddsNoComment) (stmts : List Stmt) (place : Place)
    (position : Nat) :
    blockPlaces place position (stripStmts o stmts) = blockPlaces place position stmts := by
  match stmts with
  | [] => rfl
  | s :: stmts =>
    exact congrArg₂ (· ++ ·) (s.commentPlaces_strip ho _)
      (stmtsPlaces_strip ho stmts place (position + 1))

theorem casePlaces_strip (ho : o.AddsNoComment) (cases : List Case) (place : Place)
    (number : Nat) : casePlaces place number (stripCases o cases) = casePlaces place number cases := by
  match cases with
  | [] => rfl
  | .on _ body :: cases =>
    exact congrArg₂ (· ++ none :: ·) (blockPlaces_strip ho body _)
      (casePlaces_strip ho cases place (number + 1))

end

end Outlines

/-- A module that is the plain form of another one up to spans has its comments at their places. -/
theorem commentPlaces_of_plain {body again : Block} (hsame : bareBlock again = stripBlock .plain body) :
    commentPlaces again = commentPlaces body :=
  calc
    commentPlaces again = commentPlaces (bareBlock again) :=
      (blockPlaces_strip (fun _ => rfl) again []).symm
    _ = commentPlaces (stripBlock .plain body) := congrArg commentPlaces hsame
    _ = commentPlaces body := blockPlaces_strip (fun _ => rfl) body []

/-! ## Comments among rows -/

def Row.comment? : Row → Option String
  | .comment text => some text
  | .code _ _ => none

def rowComments (rows : List Row) : List String :=
  rows.filterMap Row.comment?

theorem rowComments_append (rows rows' : List Row) :
    rowComments (rows ++ rows') = rowComments rows ++ rowComments rows' :=
  List.filterMap_append

theorem rowComments_header (h : FunctionHeader) (level : Nat) : rowComments (h.rows level) = [] := by
  rw [FunctionHeader.rows, rowComments_append]
  induction h.decorators with
  | nil => rfl
  | cons d ds ih => exact ih

/-- A comment is printed without blank space at its end, which it does not have. -/
theorem trimEnd_of_isCommentText {text : String} (h : IsCommentText text) : trimEnd text = text :=
  h.2

mutual

/-- The rows of a statement have its comments, wherever it stands. -/
theorem Stmt.rowComments_rows (s : Stmt) (hs : s.Meets .readable) (level : Nat)
    (keyword : Keyword) (place : Place) :
    rowComments (s.rows level keyword) = (s.commentPlaces place).reduceOption.map Prod.snd := by
  match s, hs with
  | .function header body, hs =>
    rw [Stmt.rows, rowComments_append, rowComments_header, List.nil_append, Stmt.commentPlaces]
    exact Body.rowComments_rows body hs.2 (level + 1) _
  | .branch condition thenBlock none _, hs =>
    rw [Stmt.rows, Stmt.commentPlaces, List.append_nil, List.append_nil]
    exact Body.rowComments_rows thenBlock hs.2.1 (level + 1) _
  | .branch condition thenBlock (some block) _, hs =>
    have helse : rowComments (if isElif block then blockRows level .elifKw block
        else .code level [.keyword .elseKw, .symbol .colon] :: bodyRows (level + 1) block) =
        (blockPlaces (place ++ [1]) 0 block).reduceOption.map Prod.snd := by
      by_cases helif : isElif block = true
      · rw [if_pos helif]
        exact Block.rowComments_rows block hs.2.2 level .elifKw _ 0
      · rw [if_neg helif]
        exact Body.rowComments_rows block hs.2.2 (level + 1) _
    have hthen := Body.rowComments_rows thenBlock hs.2.1 (level + 1) (place ++ [0])
    rw [Stmt.commentPlaces, List.reduceOption_append, List.map_append, ← hthen, ← helse,
      ← rowComments_append]
    rfl
  | .whileLoop _ body _, hs => exact Body.rowComments_rows body hs.2 (level + 1) _
  | .forLoop _ _ body _, hs => exact Body.rowComments_rows body hs.2.2 (level + 1) _
  | .matchOn _ cases _, hs => exact Cases.rowComments_rows cases hs.2 (level + 1) place 0
  | .comment text, hs => exact congrArg (fun text => [text]) (trimEnd_of_isCommentText hs)
  | .returnValue _ _, _ | .raise _ _, _ | .assign _ _ _, _ | .augment _ _ _ _, _
  | .importModules _ _, _ | .importNames _ _ _ _, _ | .expr _, _ | .pass, _ | .breakLoop, _
  | .continueLoop, _ => rfl

theorem Body.rowComments_rows (stmts : List Stmt) (h : StmtsMeet .readable stmts) (level : Nat)
    (place : Place) : rowComments (bodyRows level stmts) =
      (blockPlaces place 0 stmts).reduceOption.map Prod.snd := by
  match stmts, h with
  | [], _ => rfl
  | s :: stmts, h =>
    rw [bodyRows, rowComments_append, blockPlaces, List.reduceOption_append, List.map_append,
      Stmt.rowComments_rows s h.1 level .ifKw, Block.rowComments_rows stmts h.2 level .ifKw]

theorem Block.rowComments_rows (stmts : List Stmt) (h : StmtsMeet .readable stmts) (level : Nat)
    (keyword : Keyword) (place : Place) (position : Nat) :
    rowComments (blockRows level keyword stmts) =
      (blockPlaces place position stmts).reduceOption.map Prod.snd := by
  match stmts, h with
  | [], _ => rfl
  | s :: stmts, h =>
    rw [blockRows, rowComments_append, blockPlaces, List.reduceOption_append, List.map_append,
      Stmt.rowComments_rows s h.1 level keyword, Block.rowComments_rows stmts h.2 level keyword]

theorem Cases.rowComments_rows (cases : List Case) (h : CasesMeet .readable cases) (level : Nat)
    (place : Place) (number : Nat) : rowComments (caseRows level cases) =
      (casePlaces place number cases).reduceOption.map Prod.snd := by
  match cases, h with
  | [], _ => rfl
  | .on pattern body :: cases, h =>
    have hbody := Body.rowComments_rows body h.1.2 (level + 1) (place ++ [number])
    have hothers := Cases.rowComments_rows cases h.2 level place (number + 1)
    rw [casePlaces, List.reduceOption_append, List.reduceOption_cons_of_none, List.map_append,
      ← hbody, ← hothers, ← rowComments_append]
    rfl

end

/-- Lexemes within a line are no comments. -/
theorem Cuts.comment?_eq_none {cs rest : List Char} {ks : List Lexeme} (h : Cuts cs ks rest) :
    ∀ k ∈ ks, k.comment? = none := by
  induction h with
  | nil => exact List.forall_mem_nil _
  | blank _ ih => exact ih
  | @cons cs rest k ks n _ _ line _ ih =>
    refine List.forall_mem_cons.mpr ⟨?_, ih⟩
    cases k with
    | comment text => exact Bool.noConfusion line
    | _ => rfl

theorem Spells.commentTexts_eq_nil {text : List Char} {ks : List Lexeme} (h : Spells text ks) :
    commentTexts ks = [] :=
  commentTexts_of_forall (h.cuts [] rfl).comment?_eq_none

theorem commentTexts_dedents (n : Nat) : commentTexts (List.replicate n .dedent) = [] :=
  commentTexts_of_forall fun _ hk => List.eq_of_mem_replicate hk ▸ rfl

theorem commentTexts_layoutKinds (current level : Nat) :
    commentTexts (layoutKinds current level) = [] := by
  unfold layoutKinds
  split
  · rfl
  · exact commentTexts_dedents (current - level)

/-- The lexemes of printed lines have the comments of their rows. -/
theorem Renders.commentTexts_rowKinds {lines : List Line} {rows : List Row} (h : Renders lines rows)
    (current : Nat) : commentTexts (rowKinds current rows) = rowComments rows := by
  induction h generalizing current with
  | nil =>
    rw [rowKinds, commentTexts_append, commentTexts_dedents]
    rfl
  | blank _ ih => exact ih current
  | @code level text ks lines rows spells _ _ ih =>
    rw [rowKinds, commentTexts_append, commentTexts_layoutKinds, List.nil_append,
      commentTexts_append, spells.commentTexts_eq_nil]
    exact ih level
  | comment _ _ ih => exact congrArg _ (ih current)

/-- The printed text of a module has the comments of the module. -/
theorem comments_of_printModule {layout : Layout} (hwidth : 0 < layout.indentWidth) {body : Block}
    (h : StmtsMeet .readable body) : ∃ ts, tokens (printModule layout body) = .ok ts ∧
      commentTexts (ts.map Token.kind) = (placedComments body).map Prod.snd := by
  have hworded := StmtsMeet.mono Requirements.worded_of_readable body h
  obtain ⟨ts, hts, hkinds⟩ := tokens_printModule hwidth hworded
  refine ⟨ts, hts, ?_⟩
  rw [hkinds, (Body.renders body hworded layout 0).commentTexts_rowKinds,
    Body.rowComments_rows body h 0 [], placedComments, commentPlaces]

end StagedScript.Syntax
