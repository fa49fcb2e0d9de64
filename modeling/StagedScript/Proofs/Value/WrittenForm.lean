import StagedScript.Proofs.Rewriting.Literal
import StagedScript.Proofs.Syntax.ModuleRoundTrip

/-!
# The written form of values is source text

The written form of a literal datum and the literal of the same datum are
different texts: strings have other quotes and escapes.  They spell the same
lexemes, so what is read from them is the same.
-/

namespace StagedScript

open Syntax

/-- A string in the written form of a value is a string lexeme, whichever quote was chosen. -/
theorem spells_valueQuoted (s : String) : Spells (Text.valueQuoted s).toList [.string s] := by
  unfold Text.valueQuoted
  dsimp only
  split
  · exact .quoted (.inl rfl) s
  · exact .quoted (.inr rfl) s

theorem spells_constantText (c : Constant) (h : (Datum.constant c).IsLiteral) :
    Spells (Datum.constantText c).toList c.lexemes :=
  match c, h with
  | .none, _ => Constant.spells (.inl rfl) .none
  | .bool true, _ => Constant.spells (.inl rfl) (.bool true)
  | .bool false, _ => Constant.spells (.inl rfl) (.bool false)
  | .int n, _ => Constant.spells (.inl rfl) (.int n)
  | .string s, _ => spells_valueQuoted s
  | .float x, h => by
    -- The words for what is not finite are the only difference between the two texts.
    obtain ⟨b, hx⟩ := Decimal.decode_of_isFinite h
    have htext : Datum.constantText (.float x) = (Constant.float x).text '"' := by
      simp only [Datum.constantText, Constant.text, Decimal.text, hx]
    rw [htext]
    exact Constant.spells (.inl rfl) _

theorem tupleText_eq (texts : List String) : Datum.tupleText texts = tupleText texts :=
  match texts with
  | [] | [_] | _ :: _ :: _ => rfl

namespace Datum

mutual

/-- The written form of a literal datum spells the lexemes of its literal. -/
theorem spells_repr (d : Datum) (h : d.IsLiteral) :
    Spells d.repr.toList (d.expression.lexemes 0) := by
  match d, h with
  | .constant c, h =>
    have hspells := spells_constantText c h
    rw [Expr.lexemes.eq_def]
    exact hspells
  | .tuple _ items, h =>
    have hspells := Spells.tuple (spells_reprItems items h)
    rw [← tupleText_eq] at hspells
    rw [Expr.lexemes.eq_def]
    exact hspells
  | .list _ items, h =>
    have hspells := (Spells.commas (spells_reprItems items h)).bracketed
      .leftBracket .rightBracket (by decide)
    rw [Expr.lexemes.eq_def]
    simpa [repr, expression, commas, Symbol.text] using hspells
  | .dict _ entries, h =>
    have hspells := (Spells.commas (spells_reprEntries entries h)).bracketed
      .leftBrace .rightBrace (by decide)
    rw [Expr.lexemes.eq_def]
    simpa [repr, expression, commas, Symbol.text] using hspells

/-- The written forms of items spell the lexemes of their literals. -/
theorem spells_reprItems (items : List Datum) (h : AreLiteral items) :
    List.Forall₂ (fun (text : String) ks => Spells text.toList ks) (reprItems items)
      (itemLexemes (itemExpressions items)) :=
  match items, h with
  | [], _ => .nil
  | item :: items, h => .cons (spells_repr item h.1) (spells_reprItems items h.2)

/-- The written forms of entries spell the lexemes of their literals. -/
theorem spells_reprEntries (entries : List (Datum × Datum)) (h : AreLiteralEntries entries) :
    List.Forall₂ (fun (text : String) ks => Spells text.toList ks) (reprEntries entries)
      (entryLexemes (entryExpressions entries)) := by
  match entries, h with
  | [], _ => exact .nil
  | (key, value) :: entries, h =>
    have hentry := ((spells_repr key h.1.1).marked .colon (by decide)).spaced
      (spells_repr value h.1.2) (by simp)
    refine .cons ?_ (spells_reprEntries entries h.2)
    simpa [Symbol.text] using hentry

end

end Datum

variable {d : Datum}

/-- The written form of a literal datum is read as the plain form of its literal. -/
theorem readExpr_repr (h : d.IsLiteral) (hreads : ∀ x ∈ d.floats, Decimal.ReadsBack x) :
    ∃ e, readExpr d.repr = .ok e ∧ e.bare = d.expression.plain :=
  readExpr_of_spells (d.spells_repr h) (d.legible_expression hreads)

/-- What differs from an assignment in places only is an assignment. -/
theorem assignment_of_bareBlock {body : Block} {target value : Expr} {span : Text.Span}
    (h : bareBlock body = [.assign target value span]) : ∃ target' value' span',
      body = [.assign target' value' span'] ∧ target'.bare = target ∧ value'.bare = value := by
  match body with
  | [] => exact nomatch h
  | s :: _ :: _ => exact nomatch List.tail_eq_of_cons_eq h
  | [s] =>
    have hs : s.strip .bare = .assign target value span := List.head_eq_of_cons_eq h
    cases s with
    | assign target' value' span' =>
      obtain ⟨htarget, hvalue, -⟩ := Stmt.assign.inj hs
      exact ⟨target', value', span', rfl, htarget, hvalue⟩
    | _ => exact Stmt.noConfusion hs

/-- A line that gives a name the written form of a literal datum is read as an assignment of the
plain form of its literal. -/
theorem readModule_assignment {name : String} (hname : isName name = true) (h : d.IsLiteral)
    (hreads : ∀ x ∈ d.floats, Decimal.ReadsBack x) :
    ∃ target value span, readModule (name ++ " = " ++ d.repr) = .ok [.assign target value span] ∧
      target.bare = .named name ∧ value.bare = d.expression.plain := by
  let body : Block := [.assign (.named name) d.expression .synthetic]
  let line : List Lexeme := .identifier name :: .symbol .eq :: d.expression.lexemes 0
  have hbody : bodyRows 0 body = [.code 0 line] := by
    have htarget : (Expr.named name).lexemes 0 = [.identifier name] := by
      rw [Expr.lexemes.eq_def]
      rfl
    simp [body, line, bodyRows, blockRows, Stmt.rows, htarget]
  have hspells : Spells (name ++ " = " ++ d.repr).toList line := by
    have hvalue := spells_symbol .eq (fun _ => rfl) (d.spells_repr h)
    simpa [line, Symbol.text] using (Spells.name hname).spaced hvalue (by simp)
  obtain ⟨ts, hts, hlexed⟩ := tokens_of_spells hspells (List.cons_ne_nil _ _)
  have hkinds : ts.map Token.kind = rowKinds 0 (bodyRows 0 body) := by
    rw [hbody, hlexed]
    rfl
  have hrows : (bodyRows 0 body).all Row.unformatted = true := by
    have hholds : d.expression.Holds Constant.Legible fun _ => False := d.legible_expression hreads
    have hvalue := Expr.unformatted_lexemes 0 d.expression hholds
    rw [hbody]
    simp [line, hvalue, Lexeme.isFormatted]
  have hreadable : StmtsMeet .readable body :=
    ⟨⟨⟨hname, rfl⟩, d.legible_expression hreads⟩, trivial⟩
  obtain ⟨again, hread, hagain⟩ := readModule_of_rows hts hkinds hreadable hrows rfl rfl
  obtain ⟨target, value, span, rfl, htarget, hvalue⟩ := assignment_of_bareBlock hagain
  exact ⟨target, value, span, hread, htarget, hvalue⟩

end StagedScript
