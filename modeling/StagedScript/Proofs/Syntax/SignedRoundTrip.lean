import StagedScript.Proofs.Syntax.ModuleRoundTrip
import StagedScript.Proofs.Syntax.RoundTrip

/-!
# Expressions of finite numbers

A negative number has no literal of its own: its text is a sign in front of a
magnitude, and is read as this operation.  Apart from that, an expression of
finite numbers is read from its text as it is.
-/

namespace StagedScript.Syntax

/-- The constant, with the sign of a negative number as an operator of its own.  The smallest integer
keeps its sign, since its magnitude is no integer. -/
def Constant.signed : Constant → Expr
  | .int n =>
    if n < 0 ∧ n ≠ Int64.minValue then .unary .neg (.literal (.int (-n))) .synthetic
    else .literal (.int n)
  | .float x =>
    if Decimal.isNegative x then .unary .neg (.literal (.float (-x))) .synthetic
    else .literal (.float x)
  | c => .literal c

/-- The expression without places, with the signs of its numbers as operators. -/
abbrev Expr.signed (e : Expr) : Expr :=
  e.strip Constant.signed

/-- A double is finite, and its digits are read as the double. -/
def Constant.IsExact : Constant → Prop
  | .float x => Decimal.isFinite x = true ∧ Decimal.ReadsBack x
  | _ => True

/-- The names in the expression are names, its doubles are finite and are read back from their
digits, and there is no formatted string in it. -/
abbrev Expr.IsExact : Expr → Prop :=
  Expr.Holds Constant.IsExact fun _ => False

theorem Constant.plain_of_isExact {c : Constant} (h : c.IsExact) : c.plain = c.signed := by
  match c, h with
  | .float x, h =>
    obtain ⟨b, hb⟩ := Decimal.decode_of_isFinite h.1
    have hsign : Decimal.isNegative x = b.negative := by rw [Decimal.isNegative, hb]
    rw [Constant.plain, Constant.signed, hb, hsign]
  | .none, _ | .bool _, _ | .int _, _ | .string _, _ => rfl

theorem Constant.legible_of_isExact {c : Constant} (h : c.IsExact) : c.Legible := by
  match c, h with
  | .float _, h => exact h.2
  | .none, _ | .bool _, _ | .int _, _ | .string _, _ => trivial

/-- The printed text of an expression is read as the expression up to places and up to the signs of
negative numbers, which are operators in what is read. -/
theorem printed_expression_reads_back {e : Expr} (he : e.IsExact) :
    ∃ e', readExpr e.print = .ok e' ∧ e'.bare = e.signed := by
  have hlegible : e.Legible :=
    Expr.Holds.mono (fun _ => Constant.legible_of_isExact) (fun _ => False.elim) e he
  have hplain : e.plain = e.signed :=
    Expr.strip_congr e (Expr.Holds.mono (fun _ => Constant.plain_of_isExact) (fun _ h => h) e he)
  obtain ⟨e', hread, hbare⟩ := readExpr_print hlegible
  exact ⟨e', hread, hbare.trans hplain⟩

/-- The second number to the power of the smallest integer, if the first one is not among some
values, and otherwise an entry whose key is a tuple of one item. -/
def powerUnlessListed (first base : Expr) : Expr :=
  .conditional (.binary .notIn first (.named "xs") .synthetic)
    (.binary .pow base (.literal (.int Int64.minValue)) .synthetic)
    (.subscript (.named "d") (.tupleOf [.named "k"]) .synthetic) .synthetic

theorem printed_expression_reads_back_power :
    ∃ e, readExpr (powerUnlessListed (.literal (.int (-1))) (.literal (.float (-0.5)))).print =
        .ok e ∧
      e.bare = powerUnlessListed (.unary .neg (.literal (.int 1)) .synthetic)
        (.unary .neg (.literal (.float 0.5)) .synthetic) := by
  have hdecode : Decimal.decode (-0.5) = .finite ⟨true, 2 ^ 52, -53⟩ := by decide +kernel
  have hreads : Decimal.ReadsBack (-0.5) := by
    intro b hb
    rw [hdecode] at hb
    obtain rfl := Decimal.Parts.finite.inj hb
    decide +kernel
  have hfinite : Decimal.isFinite (-0.5) = true := by rw [Decimal.isFinite, hdecode]
  have hname {name : String} (h : isName name = true) : (Expr.named name).IsExact := h
  have he : (powerUnlessListed (.literal (.int (-1))) (.literal (.float (-0.5)))).IsExact :=
    ⟨⟨trivial, hname (by decide +kernel)⟩, ⟨⟨hfinite, hreads⟩, trivial⟩,
      hname (by decide +kernel), hname (by decide +kernel), trivial⟩
  obtain ⟨e, hread, hsame⟩ := printed_expression_reads_back he
  refine ⟨e, hread, hsame.trans ?_⟩
  have hint : Constant.signed (.int (-1)) = .unary .neg (.literal (.int 1)) .synthetic := rfl
  have hfloat : Constant.signed (.float (-0.5)) =
      .unary .neg (.literal (.float 0.5)) .synthetic := by
    have hneg : -(-0.5 : Float) = 0.5 := by decide +kernel
    rw [Constant.signed, Decimal.isNegative, hdecode, if_pos rfl, hneg]
  simp only [powerUnlessListed, Expr.signed, Expr.strip, Expr.literal, hint, hfloat]
  rfl

end StagedScript.Syntax
