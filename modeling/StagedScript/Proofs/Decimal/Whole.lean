import Mathlib
import StagedScript.Proofs.Decimal.Comparison
import StagedScript.Value.Hash

/-!
# Doubles that are whole numbers

Equal doubles are the same or both zeros.  The double of a whole number of
magnitude up to `2 ^ 53` is this whole number, so that it can be hashed like it.
-/

namespace StagedScript.Decimal

open Float.Model (UnpackedFloat)

theorem eq_of_toBits_eq {x y : Float} (h : x.toBits = y.toBits) : x = y := by
  cases x with
  | ofModel x =>
    cases y with
    | ofModel y =>
      cases x
      cases y
      congr

theorem eq_of_unpack_eq {x y : Float} (h : x.toModel.unpack = y.toModel.unpack) : x = y := by
  have hbits : x.toBits.toBitVec = y.toBits.toBitVec :=
    (UnpackedFloat.unpack_inj_of_valid x.toModel.valid y.toModel.valid).mp h
  exact eq_of_toBits_eq (UInt64.toBitVec_inj.mp hbits)

theorem beq_self_of_isNaN_eq_false {x : Float} (h : x.isNaN = false) : (x == x) = true := by
  rw [beq_iff]
  apply compare_self
  intro hunpack
  change x.toModel.unpack.isNaN = false at h
  rw [hunpack] at h
  exact Bool.noConfusion h

def IsZero (x : Float) : Prop :=
  ∃ sign, x.toModel.unpack = .zero sign

theorem eq_or_isZero_of_beq {x y : Float} (h : (x == y) = true) :
    x = y ∨ (IsZero x ∧ IsZero y) := by
  rw [beq_iff, compare_eq_iff] at h
  rcases h with ⟨s, t, hx, hy⟩ | ⟨hsame, -⟩
  · exact .inr ⟨⟨s, hx⟩, ⟨t, hy⟩⟩
  · exact .inl (eq_of_unpack_eq hsame)

/-- A finite double without a fraction is the whole number in front of its point. -/
theorem whole?_eq_some {x : Float} {b : Binary} (hx : decode x = .finite b)
    (hrest : b.split.rest = 0) (hwhole : b.split.whole < 2 ^ 63) :
    whole? x = some (Int64.ofInt (b.signed b.split.whole)) := by
  have hclamp : clampInt64 b.truncate = Int64.ofInt (b.signed b.split.whole) := by
    have hmin : int64Min = -2 ^ 63 := rfl
    have hmax : int64Max = 2 ^ 63 - 1 := rfl
    have hbounds : int64Min ≤ b.truncate ∧ b.truncate ≤ int64Max := by
      rw [Binary.truncate, Binary.signed]
      split <;> omega
    rw [clampInt64, min_eq_right hbounds.2, max_eq_right hbounds.1, Binary.truncate]
  rw [whole?, hx]
  dsimp only
  rw [if_pos ⟨hrest, hwhole⟩, toInt64, hx, ← hclamp]

theorem whole?_of_isZero {x : Float} (h : IsZero x) : whole? x = some 0 := by
  obtain ⟨sign, hx⟩ := h
  have hzero : ∃ negative, decode x = .finite ⟨negative, 0, -1074⟩ := by
    cases sign with
    | positive =>
      rw [eq_of_unpack_eq (show x.toModel.unpack = (0.0 : Float).toModel.unpack from hx)]
      exact ⟨false, rfl⟩
    | negative =>
      rw [eq_of_unpack_eq (show x.toModel.unpack = (-0.0 : Float).toModel.unpack from hx)]
      exact ⟨true, rfl⟩
  obtain ⟨negative, hdecode⟩ := hzero
  have hwhole : (Binary.split ⟨negative, 0, -1074⟩).whole = 0 := Nat.zero_div _
  have hrest : (Binary.split ⟨negative, 0, -1074⟩).rest = 0 := Nat.zero_mod _
  rw [whole?_eq_some hdecode hrest (by rw [hwhole]; decide), hwhole]
  cases negative <;> rfl

/-- The fields of a normal double. -/
theorem decode_of_normal {x : Float} {negative : Bool} {field mantissa : Nat}
    (hbits : x.toBits.toNat = (if negative then 2 ^ 63 else 0) + (field * 2 ^ 52 + mantissa))
    (hfield : 0 < field ∧ field < 2047) (hmantissa : mantissa < 2 ^ 52) :
    decode x = .finite ⟨negative, mantissa + 2 ^ 52, field - 1075⟩ := by
  have hsign : decide (2 ^ 63 ≤ x.toBits.toNat) = negative := by
    cases negative with
    | false => exact decide_eq_false (by simp at hbits; omega)
    | true => exact decide_eq_true (by simp at hbits; omega)
  have hexponent : x.toBits.toNat / 2 ^ 52 % 2 ^ 11 = field := by
    cases negative <;> simp at hbits <;> omega
  have hfraction : x.toBits.toNat % 2 ^ 52 = mantissa := by
    cases negative <;> simp at hbits <;> omega
  unfold decode
  simp only [Nat.pow_eq]
  rw [hsign, hexponent, hfraction, if_neg (by omega), if_neg (by omega)]

/-- A mantissa with an exponent that make up a whole number leave no fraction. -/
theorem split_of_whole (negative : Bool) {m k field : Nat} (hleast : 1023 ≤ field)
    (hvalue : k * 2 ^ 52 = m * 2 ^ (field - 1023)) :
    (Binary.split ⟨negative, m, field - 1075⟩).whole = k ∧
      (Binary.split ⟨negative, m, field - 1075⟩).rest = 0 := by
  unfold Binary.split
  dsimp only
  split
  · next hexponent =>
    have hpower : field - 1023 = ((field : Int) - 1075).toNat + 52 := by omega
    rw [hpower, Nat.pow_add, ← Nat.mul_assoc] at hvalue
    exact ⟨(Nat.eq_of_mul_eq_mul_right (by decide) hvalue).symm, rfl⟩
  · next hexponent =>
    have hpower : 52 = (-((field : Int) - 1075)).toNat + (field - 1023) := by omega
    rw [hpower, Nat.pow_add, ← Nat.mul_assoc] at hvalue
    have hm := Nat.eq_of_mul_eq_mul_right (Nat.two_pow_pos _) hvalue
    rw [← hm]
    exact ⟨Nat.mul_div_cancel _ (Nat.two_pow_pos _), Nat.mul_mod_left _ _⟩

/-- The double of a whole number that doubles tell apart is this number. -/
theorem whole?_ofInt64 {n : Int64} (hn : n.toInt.natAbs ≤ 2 ^ 53) :
    whole? (ofInt64 n) = some n := by
  rcases Nat.eq_zero_or_pos n.toInt.natAbs with hzero | hpos
  · obtain rfl : n = 0 := Int64.toInt_inj.mp (Int.natAbs_eq_zero.mp hzero)
    exact whole?_of_isZero ⟨.positive, rfl⟩
  obtain ⟨field, mantissa, hbits, hleast, hfield, hmantissa, hvalue⟩ := fields_toFloat hpos hn
  have hdouble := toNat_toBits_ofInt64 hn
  rw [hbits] at hdouble
  have hdecode : decode (ofInt64 n) =
      .finite ⟨decide (n.toInt < 0), mantissa + 2 ^ 52, field - 1075⟩ :=
    decode_of_normal (by simpa using hdouble) ⟨by omega, hfield⟩ hmantissa
  rw [Nat.add_comm] at hvalue
  obtain ⟨hwhole, hrest⟩ := split_of_whole (decide (n.toInt < 0)) hleast hvalue
  have hsigned : Binary.signed ⟨decide (n.toInt < 0), mantissa + 2 ^ 52, field - 1075⟩
      n.toInt.natAbs = n.toInt := by
    rw [Binary.signed]
    split
    · next hneg =>
      have := of_decide_eq_true hneg
      omega
    · next hnonneg =>
      have := of_decide_eq_false (Bool.eq_false_iff.mpr hnonneg)
      omega
  rw [whole?_eq_some hdecode hrest (by omega), hwhole, hsigned, Int64.ofInt_toInt]

/-- Equal doubles are hashed alike: they are the same, or both are zeros. -/
theorem hashWrites_of_beq {x y : Float} (h : (x == y) = true) :
    (Syntax.Constant.float x).hashWrites = (Syntax.Constant.float y).hashWrites := by
  rcases eq_or_isZero_of_beq h with rfl | ⟨hx, hy⟩
  · rfl
  · rw [Syntax.Constant.hashWrites, Syntax.Constant.hashWrites, whole?_of_isZero hx,
      whole?_of_isZero hy]

end StagedScript.Decimal
