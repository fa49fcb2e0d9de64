import StagedScript.Proofs.Syntax.Gathering
import StagedScript.Syntax.Parser.Statement

/-!
# The values in patterns

A pattern that is read compares with constants and with names and their fields
only, so that no function is called to match a value.
-/

namespace StagedScript.Syntax

open Text

/-- The expression is a constant or a name, perhaps with fields. -/
def Expr.IsPath : Expr → Prop
  | .constant _ _ | .name _ _ => True
  | .member target _ _ => target.IsPath
  | _ => False

mutual

/-- The pattern compares with constants and with names and their fields only. -/
def Pattern.IsPlain : Pattern → Prop
  | .wildcard | .capture _ => True
  | .value e => e.IsPath
  | .sequence items => ArePlain items
  | .alternatives options => ArePlain options

/-- All of the patterns do. -/
def ArePlain : List Pattern → Prop
  | [] => True
  | pattern :: patterns => pattern.IsPlain ∧ ArePlain patterns

end

theorem arePlain_iff {patterns : List Pattern} :
    ArePlain patterns ↔ ∀ q ∈ patterns, q.IsPlain := by
  induction patterns with
  | nil => simp [ArePlain]
  | cons q patterns ih => simp [ArePlain, ih]

def Case.pattern : Case → Pattern
  | .on pattern _ => pattern

/-- The match statement is one that is read, whatever its parts are read with. -/
def Stmt.IsReadMatch (stmt : Stmt) : Prop :=
  ∃ p inner span n ts rest, Parser.matchOn p inner span n ts = .ok (stmt, rest)

namespace Parser

section Yields

variable {α β : Type} {x : Parser α} {f : α → Parser β} {P : α → Prop} {Q : β → Prop}

/-- Whatever the parser reads has the property. -/
def Yields (x : Parser α) (P : α → Prop) : Prop :=
  ∀ n ts a rest, x n ts = .ok (a, rest) → P a

namespace Yields

theorem pure {a : α} (h : P a) : Yields (pure a) P := by
  rintro n ts _ _ ⟨⟩
  exact h

theorem throw (e : SyntaxFault) : Yields (throw e) P :=
  fun _ _ _ _ hrun => nomatch hrun

theorem unexpected (expected : String) : Yields (unexpected expected) P :=
  fun _ _ _ _ hrun => nomatch hrun

theorem bind (hx : Yields x P) (hf : ∀ a, P a → Yields (f a) Q) : Yields (x >>= f) Q := by
  intro n ts b rest hrun
  obtain ⟨a, mid, hfirst, hsecond⟩ := of_bind_eq_ok hrun
  exact hf a (hx n ts a mid hfirst) n mid b rest hsecond

theorem any : Yields x fun _ => True :=
  fun _ _ _ _ _ => trivial

/-- Nothing has to be known of what is read first. -/
theorem after (hf : ∀ a, Yields (f a) Q) : Yields (x >>= f) Q :=
  any.bind fun a _ => hf a

theorem bounded {x : Nat → Parser α} (h : ∀ n, Yields (x n) P) : Yields (bounded x) P :=
  fun n => h n n

end Yields

/-- Items with commas between them all have what each has. -/
theorem yields_itemsBefore {stop : Symbol} (hx : Yields x P) :
    ∀ n, Yields (itemsBefore stop x n) fun read => ∀ a ∈ read.1, P a := by
  intro n
  induction n with
  | zero => exact .throw _
  | succ n ih =>
    refine .after fun atStop => ?_
    split
    · exact .pure nofun
    · refine hx.bind fun first hfirst => .after fun comma => ?_
      split
      · exact ih.bind fun read hread => .pure (List.forall_mem_cons.mpr ⟨hfirst, hread⟩)
      · exact .pure (List.forall_mem_cons.mpr ⟨hfirst, nofun⟩)

theorem yields_itemsAfter {separator : Symbol} {starts : Lexeme → Bool} (hx : Yields x P) :
    ∀ n, Yields (itemsAfter separator starts x n) fun read => ∀ a ∈ read, P a := by
  intro n
  induction n with
  | zero => exact .throw _
  | succ n ih =>
    refine .after fun more => ?_
    split
    · refine .after fun next => ?_
      split
      · exact hx.bind fun a ha => ih.bind fun others hothers =>
          .pure (List.forall_mem_cons.mpr ⟨ha, hothers⟩)
      · exact .pure nofun
    · exact .pure nofun

end Yields

/-! ## Patterns -/

section Patterns

variable {p : ExprParsers} {inner : Parser Pattern}

theorem yields_fieldsAfter : ∀ n (e : Expr), e.IsPath → Yields (fieldsAfter n e) Expr.IsPath := by
  intro n
  induction n with
  | zero => exact fun _ _ => .throw _
  | succ n ih =>
    intro e he
    refine .after fun dot => ?_
    split
    · exact .after fun field => ih _ he
    · exact .pure he

theorem yields_negativePattern (span : Span) :
    Yields (negativePattern span) Pattern.IsPlain := by
  refine .after fun ⟨kind, numberSpan⟩ => ?_
  cases kind with
  | integer magnitude =>
    dsimp only
    split
    · exact .pure trivial
    · exact .throw _
  | float x => exact .pure trivial
  | _ => exact .throw _

/-- A literal is read as a constant. -/
theorem isPath_of_atom {n : Nat} {ts rest : List Token} {e : Expr}
    (hliteral : (ts.head?.getD endMark).kind.isLiteral = true)
    (hrun : atom p n ts = .ok (e, rest)) : e.IsPath := by
  obtain ⟨⟨kind, span⟩, mid, hpeek, hrun⟩ := of_bind_eq_ok hrun
  obtain ⟨hhead, rfl⟩ := Prod.mk.inj (Except.ok.inj hpeek)
  rw [hhead] at hliteral
  replace hliteral : kind.isLiteral = true := hliteral
  match kind, hliteral with
  | .integer magnitude, _ =>
    exact Yields.after (fun _ => .after fun _ => .pure trivial) _ _ _ _ hrun
  | .float x, _ => exact Yields.after (fun _ => .pure trivial) _ _ _ _ hrun
  | .string text, _ => exact Yields.after (fun _ => .after fun _ => .pure trivial) _ _ _ _ hrun
  | .keyword word, hliteral =>
    cases word <;> first
      | exact absurd hliteral (by decide)
      | exact Yields.after (fun _ => .pure trivial) _ _ _ _ hrun

theorem yields_bracketPattern (hinner : Yields inner Pattern.IsPlain) (stop : Symbol) :
    Yields (bracketPattern inner stop) Pattern.IsPlain := by
  refine .bind (.bounded (yields_itemsBefore hinner)) fun read hread => .after fun _ => ?_
  split
  · split
    · exact .pure (hread _ (by simp_all))
    · exact .pure (arePlain_iff.mpr hread)
  · exact .pure (arePlain_iff.mpr hread)

theorem yields_closedPattern (hinner : Yields inner Pattern.IsPlain) :
    Yields (closedPattern p inner) Pattern.IsPlain := by
  intro n ts q rest hrun
  obtain ⟨⟨kind, span⟩, mid, hpeek, hrun⟩ := of_bind_eq_ok hrun
  obtain ⟨hhead, rfl⟩ := Prod.mk.inj (Except.ok.inj hpeek)
  have hliteral (hkind : kind.isLiteral = true)
      (hrun : (do return Pattern.value (← atom p)) n ts = .ok (q, rest)) : q.IsPlain := by
    obtain ⟨e, mid, hatom, hpure⟩ := of_bind_eq_ok hrun
    obtain ⟨rfl, -⟩ := Prod.mk.inj (Except.ok.inj hpure)
    exact isPath_of_atom (by rw [hhead]; exact hkind) hatom
  have hbrackets (stop : Symbol) :
      Yields (do let _ ← advance; bracketPattern inner stop) Pattern.IsPlain :=
    .after fun _ => yields_bracketPattern hinner stop
  cases kind with
  | identifier name =>
    have hname : Yields (do
        let second ← peekSecond
        let _ ← advance
        if name = "_" then return .wildcard
        else if second = some (.symbol .dot) then
          return .value (← bounded fun n => fieldsAfter n (.name name span))
        else return .capture name) Pattern.IsPlain := by
      refine .after fun second => .after fun _ => ?_
      split
      · exact .pure trivial
      · split
        · exact .bind (.bounded fun n => yields_fieldsAfter n _ trivial) fun e he => .pure he
        · exact .pure trivial
    exact hname n ts q rest hrun
  | integer _ | float _ | string _ => exact hliteral rfl hrun
  | keyword word =>
    cases word with
    | trueKw | falseKw | noneKw => exact hliteral rfl hrun
    | _ => exact Yields.unexpected _ n ts q rest hrun
  | symbol sign =>
    cases sign with
    | leftParen => exact hbrackets .rightParen n ts q rest hrun
    | leftBracket => exact hbrackets .rightBracket n ts q rest hrun
    | minus => exact Yields.after (fun _ => yields_negativePattern span) n ts q rest hrun
    | _ => exact Yields.unexpected _ n ts q rest hrun
  | _ => exact Yields.unexpected _ n ts q rest hrun

theorem yields_orPattern (hinner : Yields inner Pattern.IsPlain) :
    Yields (orPattern p inner) Pattern.IsPlain := by
  refine (yields_closedPattern hinner).bind fun first hfirst => .after fun more => ?_
  split
  · exact .bind (.bounded (yields_itemsAfter (yields_closedPattern hinner))) fun others hothers =>
      .pure ⟨hfirst, arePlain_iff.mpr hothers⟩
  · exact .pure hfirst

theorem yields_patternWithin : ∀ n, Yields (patternWithin p n) Pattern.IsPlain := by
  intro n
  induction n with
  | zero => exact .throw _
  | succ n ih => exact yields_orPattern ih

theorem yields_casePattern : Yields (casePattern p) Pattern.IsPlain := by
  have hpattern : Yields (bounded (patternWithin p)) Pattern.IsPlain :=
    .bounded yields_patternWithin
  refine hpattern.bind fun first hfirst => .after fun comma => ?_
  split
  · exact .bind (.bounded (yields_itemsAfter hpattern)) fun others hothers =>
      .pure ⟨hfirst, arePlain_iff.mpr hothers⟩
  · exact .pure hfirst

theorem yields_cases {stmt : Parser Stmt} :
    ∀ n, Yields (cases p stmt n) fun read => ArePlain (read.map Case.pattern) := by
  intro n
  induction n with
  | zero => exact .throw _
  | succ n ih =>
    refine .after fun next => ?_
    split
    · exact .pure trivial
    · exact .pure trivial
    · exact .after fun _ => ih
    · exact .after fun _ => ih
    · exact .after fun _ => yields_casePattern.bind fun q hq => .after fun body =>
        ih.bind fun read hread => .pure ⟨hq, hread⟩
    · exact .unexpected _

end Patterns

end Parser

/-- The patterns of a match statement that is read are plain. -/
theorem Stmt.IsReadMatch.arePlain {subject : Expr} {cases : List Case} {span : Text.Span}
    (h : (Stmt.matchOn subject cases span).IsReadMatch) : ArePlain (cases.map Case.pattern) := by
  obtain ⟨p, inner, start, n, ts, rest, hrun⟩ := h
  have hyields : Parser.Yields (Parser.matchOn p inner start) fun stmt =>
      ∀ subject cases span, stmt = .matchOn subject cases span →
        ArePlain (cases.map Case.pattern) := by
    refine .after fun _ => .after fun _ => .after fun _ => .after fun _ => .after fun _ => ?_
    refine .bind (.bounded Parser.yields_cases) fun found hfound => .after fun _ => .pure ?_
    rintro subject cases span ⟨⟩
    exact hfound
  exact hyields n ts _ rest hrun subject cases span rfl

end StagedScript.Syntax
