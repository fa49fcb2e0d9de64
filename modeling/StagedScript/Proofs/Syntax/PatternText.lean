import StagedScript.Proofs.Syntax.ExpressionText
import StagedScript.Proofs.Syntax.WellFormed

/-!
# The text of patterns

The lexemes of a pattern, the patterns that it is an alternative of, and that
its text spells its lexemes.
-/

namespace StagedScript.Syntax

open Text

mutual

/-- The patterns that the pattern is an alternative of: itself unless it consists of
alternatives. -/
def Pattern.options : Pattern → List Pattern
  | .alternatives options => allOptions options
  | pattern => [pattern]

/-- The alternatives of patterns. -/
def allOptions : List Pattern → List Pattern
  | [] => []
  | pattern :: patterns => pattern.options ++ allOptions patterns

end

theorem flatOptions_eq (patterns : List Pattern) :
    flatOptions patterns = (allOptions patterns).map Pattern.flat := by
  match patterns with
  | [] => rfl
  | .alternatives inner :: patterns =>
    rw [flatOptions, allOptions, Pattern.options, List.map_append, flatOptions_eq inner,
      flatOptions_eq patterns]
  | .wildcard :: patterns | .capture _ :: patterns | .value _ :: patterns
  | .sequence _ :: patterns =>
    rw [flatOptions, allOptions, List.map_append, flatOptions_eq patterns]
    · rfl
    · simp

/-- Lists of lexemes with bars between them. -/
def barred (kss : List (List Lexeme)) : List Lexeme :=
  [Lexeme.symbol .pipe].intercalate kss

/-- The lexemes of fields, each with a dot in front. -/
def fieldLexemes (fields : List String) : List Lexeme :=
  fields.flatMap fun field => [.symbol .dot, .identifier field]

mutual

def Pattern.lexemes : Pattern → List Lexeme
  | .wildcard => [.identifier "_"]
  | .capture name => [.identifier name]
  | .value expr => expr.lexemes 0
  | .sequence items => tupleLexemes (patternLexemes items)
  | .alternatives options => barred (patternLexemes options)

def patternLexemes : List Pattern → List (List Lexeme)
  | [] => []
  | pattern :: patterns => pattern.lexemes :: patternLexemes patterns

end

variable {constant : Constant → Prop}

theorem Expr.IsDotted.holds {formatted : List FormattedPart → Prop} {e : Expr} (h : e.IsDotted) :
    e.Holds constant formatted := by
  match e, h with
  | .name id _, h => exact h.1
  | .member target field _, h => exact ⟨Expr.IsDotted.holds h.1, h.2⟩

theorem Expr.IsPattern.holds {formatted : List FormattedPart → Prop} {e : Expr}
    (h : e.IsPattern constant) : e.Holds constant formatted := by
  match e, h with
  | .constant _ _, h => exact h
  | .member target field _, h => exact ⟨h.1.holds, h.2⟩

theorem Expr.IsPattern.worded {e : Expr} (h : e.IsPattern constant) : e.Worded :=
  Expr.Holds.mono (fun _ _ => trivial) (fun _ h => h) e h.holds

theorem patternLexemes_eq_map (patterns : List Pattern) :
    patternLexemes patterns = patterns.map Pattern.lexemes := by
  induction patterns with
  | nil => rfl
  | cons q patterns ih => rw [patternLexemes, ih, List.map_cons]

theorem Pattern.lexemes_ne_nil (q : Pattern) (hq : q.Holds constant) : q.lexemes ≠ [] := by
  match q, hq with
  | .wildcard, _ | .capture _, _ => exact List.cons_ne_nil _ _
  | .value expr, _ => exact expr.lexemes_ne_nil 0
  | .sequence items, _ =>
    rw [Pattern.lexemes, tupleLexemes.eq_def]
    split <;> exact List.cons_ne_nil _ _
  | .alternatives [], hq => exact absurd hq.1 (by decide)
  | .alternatives (o :: options), hq =>
    have ho := Pattern.lexemes_ne_nil o hq.2.1
    rw [Pattern.lexemes, patternLexemes, barred]
    cases patternLexemes options with
    | nil => simpa using ho
    | cons ks kss =>
      rw [List.intercalate_cons_cons]
      simp [ho]

theorem Spells.barred {texts : List String} {kss : List (List Lexeme)}
    (h : List.Forall₂ (fun (text : String) ks => Spells text.toList ks) texts kss)
    (hne : ∀ ks ∈ kss, ks ≠ []) :
    Spells (" | ".intercalate texts).toList (Syntax.barred kss) := by
  induction h with
  | nil => exact nil
  | cons hfirst hrest ih =>
    have hothers := ih fun ks hks => hne ks (List.mem_cons_of_mem _ hks)
    cases hrest with
    | nil => simpa [Syntax.barred] using hfirst
    | cons _ _ =>
      have hbar := (mark .pipe (by decide)).spaced hothers (by simp)
      have hall := hfirst.spaced hbar (hne _ List.mem_cons_self)
      simp only [Syntax.barred] at hall ⊢
      rw [String.intercalate_cons_cons, List.intercalate_cons_cons]
      simpa [Symbol.text] using hall

mutual

/-- The printed text of a pattern spells its lexemes. -/
theorem Pattern.spells (p : Pattern) (hp : p.Holds constant) : Spells p.print.toList p.lexemes := by
  match p, hp with
  | .wildcard, _ => exact .name (by decide +kernel)
  | .capture name, hp => exact .name hp.1
  | .value expr, hp => exact Expr.spells 0 expr (Expr.IsPattern.worded hp)
  | .sequence items, hp => exact .tuple (Patterns.spells items hp)
  | .alternatives options, hp =>
    apply Spells.barred (Patterns.spells options hp.2)
    intro ks hks
    rw [patternLexemes_eq_map] at hks
    obtain ⟨q, hq, rfl⟩ := List.mem_map.mp hks
    exact q.lexemes_ne_nil (patternsHold_iff.mp hp.2 q hq)

/-- The printed texts of patterns spell their lexemes. -/
theorem Patterns.spells (patterns : List Pattern) (h : PatternsHold constant patterns) :
    List.Forall₂ (fun (text : String) ks => Spells text.toList ks) (printPatterns patterns)
      (patternLexemes patterns) := by
  match patterns, h with
  | [], _ => exact .nil
  | pattern :: patterns, h =>
    exact .cons (Pattern.spells pattern h.1) (Patterns.spells patterns h.2)

end

end StagedScript.Syntax
