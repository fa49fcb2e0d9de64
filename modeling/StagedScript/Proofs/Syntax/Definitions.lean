import StagedScript.Syntax.Tree

/-!
# Definitions of functions

The definitions of functions that stand in a block, those inside of other
statements and of other definitions among them.
-/

namespace StagedScript.Syntax

/-- The definition of a function: what the statement holds. -/
abbrev Definition := FunctionHeader × Block

mutual

/-- The definitions in a statement. -/
def Stmt.definitions : Stmt → List Definition
  | .function header body => (header, body) :: definitionsIn body
  | .branch _ thenBlock elseBlock _ =>
    definitionsIn thenBlock ++
      match elseBlock with
      | some block => definitionsIn block
      | none => []
  | .whileLoop _ body _ | .forLoop _ _ body _ => definitionsIn body
  | .matchOn _ cases _ => definitionsInCases cases
  | .returnValue _ _ | .raise _ _ | .assign _ _ _ | .augment _ _ _ _ | .importModules _ _
  | .importNames _ _ _ _ | .expr _ | .comment _ | .pass | .breakLoop | .continueLoop => []

def definitionsIn : List Stmt → List Definition
  | [] => []
  | stmt :: stmts => stmt.definitions ++ definitionsIn stmts

def definitionsInCases : List Case → List Definition
  | [] => []
  | .on _ body :: cases => definitionsIn body ++ definitionsInCases cases

end

mutual

theorem Stmt.definitions_trans {d inner : Definition} {stmt : Stmt} (h : d ∈ stmt.definitions)
    (hinner : inner ∈ definitionsIn d.2) : inner ∈ stmt.definitions := by
  match stmt with
  | .function header body =>
    rw [Stmt.definitions, List.mem_cons] at h ⊢
    rcases h with rfl | h
    · exact .inr hinner
    · exact .inr (definitionsIn_trans h hinner)
  | .branch _ thenBlock none _ =>
    simp only [Stmt.definitions, List.append_nil] at h ⊢
    exact definitionsIn_trans h hinner
  | .branch _ thenBlock (some elseBlock) _ =>
    simp only [Stmt.definitions, List.mem_append] at h ⊢
    exact h.imp (definitionsIn_trans · hinner) (definitionsIn_trans · hinner)
  | .whileLoop _ body _ | .forLoop _ _ body _ =>
    rw [Stmt.definitions] at h ⊢
    exact definitionsIn_trans h hinner
  | .matchOn _ cases _ =>
    rw [Stmt.definitions] at h ⊢
    exact definitionsInCases_trans h hinner
  | .returnValue _ _ | .raise _ _ | .assign _ _ _ | .augment _ _ _ _ | .importModules _ _
  | .importNames _ _ _ _ | .expr _ | .comment _ | .pass | .breakLoop | .continueLoop =>
    simp [Stmt.definitions] at h

/-- What is defined inside of a definition of a block is defined in the block. -/
theorem definitionsIn_trans {d inner : Definition} {stmts : List Stmt}
    (h : d ∈ definitionsIn stmts) (hinner : inner ∈ definitionsIn d.2) :
    inner ∈ definitionsIn stmts := by
  match stmts with
  | [] => simp [definitionsIn] at h
  | stmt :: stmts =>
    rw [definitionsIn, List.mem_append] at h ⊢
    exact h.imp (Stmt.definitions_trans · hinner) (definitionsIn_trans · hinner)

theorem definitionsInCases_trans {d inner : Definition} {cases : List Case}
    (h : d ∈ definitionsInCases cases) (hinner : inner ∈ definitionsIn d.2) :
    inner ∈ definitionsInCases cases := by
  match cases with
  | [] => simp [definitionsInCases] at h
  | .on _ body :: cases =>
    rw [definitionsInCases, List.mem_append] at h ⊢
    exact h.imp (definitionsIn_trans · hinner) (definitionsInCases_trans · hinner)

end

end StagedScript.Syntax
