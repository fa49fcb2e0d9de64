import StagedScript.Proofs.Syntax.ExpressionReading
import StagedScript.Proofs.Decimal.Double

/-!
# Reading legible expressions

A number with a sign is read as the sign in front of its magnitude, and one
that is not finite as the call that yields it.  With that all legible
expressions are readable.
-/

namespace StagedScript.Syntax

open Text StagedScript.Syntax.Parser

/-! ## Numbers with a sign -/

/-- Expressions that bind equally strongly and are printed equally at their own level. -/
theorem Expr.lexemes_congr {e e' : Expr} (hs : e.strength = e'.strength)
    (h : e.lexemes e.strength = e'.lexemes e'.strength) (l : Nat) : e.lexemes l = e'.lexemes l := by
  by_cases hl : l ≤ e.strength
  · have hl' : l ≤ e'.strength := hs ▸ hl
    rw [Expr.lexemes_of_le hl, Expr.lexemes_of_le hl', h]
  · have hlt := Nat.lt_of_not_le hl
    have hlt' : e'.strength < l := hs ▸ hlt
    rw [Expr.lexemes_of_lt hlt, Expr.lexemes_of_lt hlt', h]

theorem Expr.lexemes_constant (c : Constant) (span : Span) :
    (Expr.constant c span).lexemes (Expr.constant c span).strength = c.lexemes := by
  rw [Expr.lexemes.eq_def]
  exact if_neg (Nat.lt_irrefl _)

theorem Expr.lexemes_neg (operand : Expr) (span : Span) :
    (Expr.unary .neg operand span).lexemes (Expr.unary .neg operand span).strength =
      .symbol .minus :: operand.lexemes Strength.sign := rfl

/-- The least integer is read together with its sign. -/
theorem readable_minValue (span : Span) : Readable (.constant (.int Int64.minValue) span) := by
  have hall : (Expr.constant (.int Int64.minValue) span).lexemes Strength.sign =
      [.symbol .minus, .integer (Nat.pow 2 63)] := rfl
  apply Readable.of_takes (s := Strength.sign) rfl (by decide)
  intro d hd n ts rest hts hn hrest
  rw [hall] at hts
  obtain ⟨⟨kind, start⟩, us, rfl, rfl, hus⟩ := cons_tokens hts
  obtain ⟨u, us, rfl, hu, hus'⟩ := cons_tokens hus
  obtain rfl : us = [] := List.map_eq_nil_iff.mp hus'
  refine ⟨.constant (.int Int64.minValue) (start.merge u.span), ?_, rfl⟩
  refine Reads.bind Reads.peek (Reads.bind (Reads.advance (by simp)) ?_)
  refine Reads.bind Reads.peek ?_
  rw [if_pos ⟨rfl, hu⟩]
  exact Reads.bind (Reads.advance hrest.ne_nil) (Reads.pure _)

theorem Int64.toInt_neg_of_ne {m : Int64} (hm : m ≠ Int64.minValue) : (-m).toInt = -m.toInt := by
  have hne : m.toInt ≠ -2 ^ 63 := by
    intro h
    exact hm (Int64.toInt_inj.mp h)
  have hle := m.le_toInt
  have hlt := m.toInt_lt
  rw [Int64.toInt_neg]
  apply Int.bmod_eq_of_le <;> omega

theorem readable_int (m : Int64) (span : Span) : Readable (.constant (.int m) span) := by
  by_cases hneg : m.toInt < 0
  -- The magnitude of the least integer fits no integer, so its sign is read with the digits.
  · by_cases hmin : m = Int64.minValue
    · subst hmin
      exact readable_minValue span
    have hvalue := Int64.toInt_neg_of_ne hmin
    have hpos : ¬ (-m).toInt < 0 := by omega
    have hsmall := (Int64.toInt_neg_iff m).mp hneg
    have hmagnitude := readable_integer hpos span
    have hsame : (Expr.constant (.int (-m)) span).lexemes Strength.sign =
        [.integer m.toInt.natAbs] := by
      have hs : (Expr.constant (.int (-m)) span).strength = Strength.atom := by
        simp [Expr.strength, (Int64.toInt_neg_iff (-m)).not.mp hpos]
      rw [Expr.lexemes_of_le (by rw [hs]; decide), Expr.lexemes_constant]
      have hle := Int.le_of_lt hneg
      simp [Constant.lexemes, signLexemes, hvalue, hle]
    apply (readable_neg hmagnitude span).congr
    · apply Expr.lexemes_congr
      · simp [Expr.strength, hsmall]
      · rw [Expr.lexemes_constant, Expr.lexemes_neg, hsame]
        simp [Constant.lexemes, hneg, signLexemes]
    · have hnot := (Int64.toInt_neg_iff (-m)).not.mp hpos
      simp [Expr.strip, Constant.plain, hsmall, hmin, hnot]
  · exact readable_integer hneg span

theorem readable_float_call (name : String) :
    Readable (.callOf (.named "float") [.string name]) :=
  readable_call (readable_name "float" .synthetic)
    (List.forall_mem_singleton.mpr (readable_string name .synthetic)) .synthetic

theorem Expr.lexemes_float_call (name : String) :
    (Expr.callOf (.named "float") [.string name]).lexemes Strength.atom = specialLexemes name := rfl

theorem readable_double {x : Float} (hback : Decimal.ReadsBack x) (span : Span) :
    Readable (.constant (.float x) span) := by
  cases hx : Decimal.decode x with
  | notANumber =>
    have hs : (Expr.constant (.float x) span).strength = Strength.atom := by
      simp [Expr.strength, Decimal.isNegative, hx]
    apply (readable_float_call "nan").congr
    · apply Expr.lexemes_congr hs
      rw [Expr.lexemes_constant]
      simp only [Constant.lexemes, hx]
      exact (Expr.lexemes_float_call "nan").symm
    · simp [Expr.strip, Constant.plain, hx, Expr.callOf, Expr.named, Expr.string, Expr.literal,
        stripItems]
  | infinite negative =>
    cases negative with
    | false =>
      have hs : (Expr.constant (.float x) span).strength = Strength.atom := by
        simp [Expr.strength, Decimal.isNegative, hx]
      apply (readable_float_call "inf").congr
      · apply Expr.lexemes_congr hs
        rw [Expr.lexemes_constant]
        simp only [Constant.lexemes, hx]
        exact (Expr.lexemes_float_call "inf").symm
      · simp [Expr.strip, Constant.plain, hx, Expr.callOf, Expr.named, Expr.string, Expr.literal,
          stripItems]
    | true =>
      have hs : (Expr.constant (.float x) span).strength = Strength.sign := by
        simp [Expr.strength, Decimal.isNegative, hx]
      apply (readable_neg (readable_float_call "inf") span).congr
      · apply Expr.lexemes_congr hs
        rw [Expr.lexemes_constant, Expr.lexemes_neg]
        simp only [Constant.lexemes, hx]
        exact congrArg (Lexeme.symbol .minus :: ·) (Expr.lexemes_float_call "inf").symm
      · simp [Expr.strip, Constant.plain, hx, Expr.callOf, Expr.named, Expr.string, Expr.literal,
          stripItems]
  | finite b =>
    by_cases hneg : b.negative = true
    · have hx' := Decimal.decode_neg hx
      have hback' : Decimal.ReadsBack (-x) := hback.neg hx
      have hs : (Expr.constant (.float x) span).strength = Strength.sign := by
        simp [Expr.strength, Decimal.isNegative, hx, hneg]
      have hsame : (Expr.constant (.float (-x)) span).lexemes Strength.sign = [.float (-x)] := by
        have hs' : (Expr.constant (.float (-x)) span).strength = Strength.atom := by
          simp [Expr.strength, Decimal.isNegative, hx', hneg]
        rw [Expr.lexemes_of_le (by rw [hs']; decide), Expr.lexemes_constant]
        have hreread : Decimal.reread { b with negative := false } = -x := by
          simpa [hneg] using hback'.reread_eq hx'
        simp [Constant.lexemes, hx', hneg, signLexemes, hreread]
      apply (readable_neg (readable_float hx' (by simp [hneg]) hback' span) span).congr
      · apply Expr.lexemes_congr hs
        rw [Expr.lexemes_constant, Expr.lexemes_neg, hsame]
        simp [Constant.lexemes, hx, hneg, signLexemes, hback.reread_eq hx]
      · simp [Expr.strip, Constant.plain, hx, hx', hneg]
    · exact readable_float hx (by simpa using hneg) hback span

theorem readable_constant (c : Constant) (h : c.Legible) (span : Span) :
    Readable (.constant c span) :=
  match c, h with
  | .none, _ => readable_none span
  | .bool b, _ => readable_bool b span
  | .int m, _ => readable_int m span
  | .float _, h => readable_double h span
  | .string s, _ => readable_string s span

/-! ## All expressions -/

theorem readable_binary {left right : Expr} (op : BinaryOp) (hleft : Readable left)
    (hright : Readable right) (span : Span) : Readable (.binary op left right span) := by
  cases op with
  | pow => exact readable_power hleft hright span
  | or =>
    exact readable_chain orOp? (s := Strength.disjunction) rfl (by decide) rfl rfl
      (by decide) rfl (fun _ => rfl) (by decide) hleft hright span
  | and =>
    exact readable_chain andOp? (s := Strength.conjunction) rfl (by decide) rfl rfl
      (by decide) rfl (fun _ => rfl) (by decide) hleft hright span
  | add | sub =>
    exact readable_chain sumOp? (s := Strength.sum) rfl (by decide) rfl rfl
      (by decide) rfl (fun _ => rfl) (by decide) hleft hright span
  | mul | div | floorDiv | mod =>
    exact readable_chain productOp? (s := Strength.product) rfl (by decide) rfl rfl
      (by decide) rfl (fun _ => rfl) (by decide) hleft hright span
  | eq | ne | lt | gt | le | ge | isIn | notIn => exact readable_comparison rfl hleft hright span

mutual

/-- The lexemes of a legible expression are read as its plain form. -/
theorem Expr.Legible.readable (e : Expr) (he : e.Legible) : Readable e :=
  match e, he with
  | .name id span, _ => readable_name id span
  | .constant c span, he => readable_constant c he span
  | .formatted _ span, he => readable_formatted he span
  | .tuple items span, he => readable_tuple (ItemsLegible.readable items he) span
  | .list items span, he => readable_list (ItemsLegible.readable items he) span
  | .dict entries span, he => readable_dict (EntriesLegible.readable entries he) span
  | .member target field span, he =>
    readable_member (Expr.Legible.readable target he.1) field span
  | .subscript target index span, he =>
    readable_subscript (Expr.Legible.readable target he.1) (Expr.Legible.readable index he.2)
      (match index, he.2 with
        | .tuple items s, hindex => fun items' s' heq => by
          obtain ⟨rfl, rfl⟩ := Expr.tuple.inj heq
          exact ItemsLegible.readable items hindex
        | .name _ _, _ | .constant _ _, _ | .formatted _ _, _ | .list _ _, _ | .dict _ _, _
        | .member _ _ _, _ | .subscript _ _ _, _ | .call _ _ _, _ | .binary _ _ _ _, _
        | .unary _ _ _, _ | .conditional _ _ _ _, _ => fun _ _ heq => Expr.noConfusion heq)
      span
  | .call callee args span, he =>
    readable_call (Expr.Legible.readable callee he.1) (ItemsLegible.readable args he.2) span
  | .binary op left right span, he =>
    readable_binary op (Expr.Legible.readable left he.1) (Expr.Legible.readable right he.2) span
  | .unary op operand span, he =>
    match op with
    | .not => readable_not (Expr.Legible.readable operand he) span
    | .neg => readable_neg (Expr.Legible.readable operand he) span
    | .pos => readable_pos (Expr.Legible.readable operand he) span
  | .conditional c t e span, he =>
    readable_conditional (Expr.Legible.readable c he.1) (Expr.Legible.readable t he.2.1)
      (Expr.Legible.readable e he.2.2) span

/-- Each of the expressions is readable. -/
theorem ItemsLegible.readable (items : List Expr) (h : ItemsLegible items) :
    ∀ e ∈ items, Readable e :=
  match items, h with
  | [], _ => fun _ he => absurd he List.not_mem_nil
  | item :: items, h => fun e he => by
    have hfirst := Expr.Legible.readable item h.1
    rcases List.mem_cons.mp he with rfl | he
    · exact hfirst
    · exact ItemsLegible.readable items h.2 e he

/-- Each of the dictionary entries is readable. -/
theorem EntriesLegible.readable (entries : List Entry) (h : EntriesLegible entries) :
    ∀ entry ∈ entries, EntryReadable entry :=
  match entries, h with
  | [], _ => fun _ he => absurd he List.not_mem_nil
  | .pair key value :: entries, h => fun entry he => by
    rcases List.mem_cons.mp he with rfl | he
    · exact ⟨Expr.Legible.readable key h.1.1, Expr.Legible.readable value h.1.2⟩
    · exact EntriesLegible.readable entries h.2 entry he

end

end StagedScript.Syntax
