import StagedScript.Proofs.Syntax.Takes

/-!
# Levels of binding strength

There is one parser for each strength.  What the parser of one level takes, the
parser of the level below takes too, if the next token does not go on at that
level.
-/

namespace StagedScript.Syntax

open Text

/-- How strongly a lexeme binds to an expression in front of it; zero if it does not go on with
it. -/
def Lexeme.tightness : Lexeme → Nat
  | .string _ => Strength.atom + 1
  | .symbol .leftParen | .symbol .dot | .symbol .leftBracket => Strength.atom
  | .symbol .starStar => Strength.power
  | .symbol .star | .symbol .slash | .symbol .slashSlash | .symbol .percent => Strength.product
  | .symbol .plus | .symbol .minus => Strength.sum
  | .symbol .eqEq | .symbol .notEq | .symbol .lt | .symbol .gt | .symbol .ltEq | .symbol .gtEq
  | .keyword .inKw | .keyword .notKw => Strength.comparison
  | .keyword .andKw => Strength.conjunction
  | .keyword .orKw => Strength.disjunction
  | .keyword .ifKw => Strength.conditional
  | _ => 0

/-- The lexeme does not go on with an expression of the given strength. -/
def Lexeme.Below (least : Nat) (k : Lexeme) : Prop :=
  k.tightness < least

instance (least : Nat) (k : Lexeme) : Decidable (k.Below least) :=
  inferInstanceAs (Decidable (k.tightness < least))

theorem Lexeme.Below.mono {least least' : Nat} (hle : least ≤ least') (k : Lexeme)
    (h : k.Below least) : k.Below least' :=
  Nat.lt_of_lt_of_le h hle

namespace Parser

/-- An operator of a level and its second operand. -/
def chainStep (op? : Lexeme → Option BinaryOp) (operand : Parser Expr) (left : Expr) :
    Parser (Option Expr) := do
  match op? (← peek) with
  | some op =>
    let _ ← advance
    return some (binary op left (← operand))
  | none => return none

/-- The parser of expressions that bind at least so strongly. -/
def level (p : ExprParsers) : Nat → Parser Expr
  | 0 | 1 => conditional p
  | 2 => disjunction p
  | 3 => chain andOp? (negation p)
  | 4 => negation p
  | 5 => comparison p
  | 6 => sum p
  | 7 => chain productOp? (signed p)
  | 8 => signed p
  | 9 => power p
  | 10 => postfixExpr p
  | _ => atom p

/-- The levels at which an expression is extended over and over. -/
def loopLevels : List Nat :=
  [Strength.disjunction, Strength.conjunction, Strength.sum, Strength.product, Strength.atom]

/-- What extends an expression of a level. -/
def extension (p : ExprParsers) : Nat → Expr → Parser (Option Expr)
  | 2 => chainStep orOp? (level p 3)
  | 3 => chainStep andOp? (level p 4)
  | 6 => chainStep sumOp? (level p 7)
  | 7 => chainStep productOp? (level p 8)
  | _ => trailer p

theorem level_eq_extended (p : ExprParsers) {l : Nat} (hl : l ∈ loopLevels) :
    level p l = extended (level p (l + 1)) (extension p l) := by
  simp only [loopLevels, List.mem_cons, List.not_mem_nil, or_false] at hl
  rcases hl with rfl | rfl | rfl | rfl | rfl <;> rfl

variable {p : ExprParsers} {n : Nat} {ts rest : List Token} {t : Token} {ks : List Lexeme}
  {Q : Expr → Prop}

theorem chainStep_none {op? : Lexeme → Option BinaryOp} {operand : Parser Expr}
    (h : op? t.kind = none) (left : Expr) :
    Reads (chainStep op? operand left) n (t :: ts) none (t :: ts) := by
  refine Reads.bind Reads.peek ?_
  rw [h]
  exact Reads.pure none

theorem trailer_none (h : t.kind.Below Strength.atom) (e : Expr) :
    Reads (trailer p e) n (t :: ts) none (t :: ts) := by
  have hne (sign : Symbol) (hsign : Strength.atom ≤ (Lexeme.symbol sign).tightness) :
      t.kind ≠ .symbol sign := by
    intro heq
    rw [heq] at h
    exact absurd h (Nat.not_lt.mpr hsign)
  refine Reads.bind (Reads.accept_false (hne .leftParen (by decide))) ?_
  refine Reads.bind (Reads.accept_false (hne .dot (by decide))) ?_
  exact Reads.bind (Reads.accept_false (hne .leftBracket (by decide))) (Reads.pure none)

/-- Nothing extends an expression before a token that does not go on at the level. -/
theorem extension_none {l : Nat} (hl : l ∈ loopLevels) (e : Expr) (h : Stops (Lexeme.Below l) rest) :
    Reads (extension p l e) n rest none rest := by
  obtain ⟨t, ts, rfl, ht⟩ := h
  simp only [loopLevels, List.mem_cons, List.not_mem_nil, or_false] at hl
  have hkind : ∀ (k : Lexeme),
      (k.tightness < 2 → orOp? k = none) ∧ (k.tightness < 3 → andOp? k = none) ∧
      (k.tightness < 6 → sumOp? k = none) ∧ (k.tightness < 7 → productOp? k = none) := by
    intro k
    match k with
    | .symbol sign => cases sign <;> decide
    | .keyword word => cases word <;> decide
    | .indent | .dedent | .newline | .eof => decide
    | .identifier _ | .integer _ | .float _ | .string _ | .formatted _ | .comment _ =>
      exact ⟨fun _ => rfl, fun _ => rfl, fun _ => rfl, fun _ => rfl⟩
  rcases hl with rfl | rfl | rfl | rfl | rfl
  · exact chainStep_none ((hkind t.kind).1 ht) e
  · exact chainStep_none ((hkind t.kind).2.1 ht) e
  · exact chainStep_none ((hkind t.kind).2.2.1 ht) e
  · exact chainStep_none ((hkind t.kind).2.2.2 ht) e
  · exact trailer_none ht e

theorem Loops.takes_level {l : Nat} (hl : l ∈ loopLevels)
    (h : Loops (level p (l + 1)) (extension p l) ks (Lexeme.Below (l + 1)) Q) :
    Takes (level p l) ks (Lexeme.Below l) Q := by
  rw [level_eq_extended p hl]
  have hbelow : Loops (level p (l + 1)) (extension p l) ks (Lexeme.Below l) Q :=
    fun n ts rest hts hn hrest =>
      h n ts rest hts hn (hrest.mono (Lexeme.Below.mono (Nat.le_succ l)))
  exact hbelow.takes fun a n rest _ hrest => extension_none hl a hrest

theorem takes_power (h : Takes (postfixExpr p) ks (Lexeme.Below Strength.atom) Q) :
    Takes (power p) ks (Lexeme.Below Strength.power) Q := by
  intro n ts rest hts hn hrest
  obtain ⟨a, hread, ha⟩ := h n ts rest hts hn (hrest.mono (Lexeme.Below.mono (by decide)))
  obtain ⟨t, rest, rfl, ht⟩ := hrest
  have hne : t.kind ≠ .symbol .starStar := by
    intro heq
    rw [heq] at ht
    exact absurd ht (by decide)
  exact ⟨a, Reads.bind hread (Reads.bind (Reads.accept_false hne) (Reads.pure a)), ha⟩

theorem takes_signed (h : Takes (power p) ks (Lexeme.Below Strength.power) Q)
    (hopens : OpensWith Strength.power ks) :
    Takes (signed p) ks (Lexeme.Below Strength.sign) Q := by
  intro n ts rest hts hn hrest
  obtain ⟨a, hread, ha⟩ := h n ts rest hts hn (hrest.mono (Lexeme.Below.mono (by decide)))
  obtain ⟨k, ks', rfl, hk⟩ := hopens
  obtain ⟨t, ts, rfl, ht, -⟩ := cons_tokens hts
  have hsigns := hk.unsigned (Nat.le_refl _)
  refine ⟨a, Reads.bind Reads.peek ?_, ha⟩
  dsimp only
  split
  · exact hread
  · next op hop =>
    exfalso
    split at hop
    · next heq => exact hsigns.1 (ht ▸ heq)
    · next heq => exact hsigns.2 (ht ▸ heq)
    · exact absurd hop (by simp)

theorem comparisonOp?_none (h : t.kind.Below Strength.comparison) :
    Reads comparisonOp? n (t :: ts) none (t :: ts) := by
  obtain ⟨kind, span⟩ := t
  replace h : kind.Below Strength.comparison := h
  match kind, h with
  | .symbol sign, h => cases sign <;> first | exact absurd h (by decide) | rfl
  | .keyword word, h => cases word <;> first | exact absurd h (by decide) | rfl
  | .indent, _ | .dedent, _ | .newline, _ | .eof, _ => rfl
  | .identifier _, _ | .integer _, _ | .float _, _ | .string _, _ | .formatted _, _
  | .comment _, _ => rfl

theorem takes_comparison (h : Takes (sum p) ks (Lexeme.Below Strength.sum) Q) :
    Takes (comparison p) ks (Lexeme.Below Strength.comparison) Q := by
  intro n ts rest hts hn hrest
  obtain ⟨a, hread, ha⟩ := h n ts rest hts hn (hrest.mono (Lexeme.Below.mono (by decide)))
  obtain ⟨t, rest, rfl, ht⟩ := hrest
  exact ⟨a, Reads.bind hread (Reads.bind (comparisonOp?_none ht) (Reads.pure a)), ha⟩

theorem takes_negation (h : Takes (comparison p) ks (Lexeme.Below Strength.comparison) Q)
    (hopens : OpensWith Strength.comparison ks) :
    Takes (negation p) ks (Lexeme.Below Strength.negation) Q := by
  intro n ts rest hts hn hrest
  obtain ⟨a, hread, ha⟩ := h n ts rest hts hn (hrest.mono (Lexeme.Below.mono (by decide)))
  obtain ⟨k, ks', rfl, hk⟩ := hopens
  obtain ⟨t, ts, rfl, ht, -⟩ := cons_tokens hts
  refine ⟨a, Reads.bind (Reads.isAt _) ?_, ha⟩
  rw [decide_eq_false (ht ▸ hk.positive (Nat.le_refl _))]
  exact hread

theorem takes_conditional (h : Takes (disjunction p) ks (Lexeme.Below Strength.disjunction) Q) :
    Takes (conditional p) ks (Lexeme.Below Strength.conditional) Q := by
  intro n ts rest hts hn hrest
  obtain ⟨a, hread, ha⟩ := h n ts rest hts hn (hrest.mono (Lexeme.Below.mono (by decide)))
  obtain ⟨t, rest, rfl, ht⟩ := hrest
  have hne : t.kind ≠ .keyword .ifKw := by
    intro heq
    rw [heq] at ht
    exact absurd ht (by decide)
  exact ⟨a, Reads.bind hread (Reads.bind (Reads.accept_false hne) (Reads.pure a)), ha⟩

/-- What the parser of a level takes, the one of the level below takes too. -/
theorem takes_below {l : Nat} (hpos : 0 < l) (hl : l < 10)
    (hopens : OpensWith (l + 1) ks) (h : Takes (level p (l + 1)) ks (Lexeme.Below (l + 1)) Q) :
    Takes (level p l) ks (Lexeme.Below l) Q := by
  by_cases hloop : l ∈ loopLevels
  · exact h.loops.takes_level hloop
  have hother : l = 1 ∨ l = 4 ∨ l = 5 ∨ l = 8 ∨ l = 9 := by
    have hnone : l ∉ [2, 3, 6, 7, 10] := hloop
    simp only [List.mem_cons, List.not_mem_nil, or_false] at hnone
    omega
  rcases hother with rfl | rfl | rfl | rfl | rfl
  · exact takes_conditional h
  · exact takes_negation h hopens
  · exact takes_comparison h
  · exact takes_signed h hopens
  · exact takes_power h

end Parser

end StagedScript.Syntax
