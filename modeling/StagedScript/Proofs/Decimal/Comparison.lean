import StagedScript.Proofs.Decimal.Double

/-!
# Equality of doubles

Two doubles are equal if they have the same sign, exponent and mantissa, or if
both are zeros.  Equality is symmetric and transitive, and a whole number of
magnitude up to `2 ^ 53` is told from all others by the double nearest to it.
-/

namespace StagedScript.Decimal

open Float.Model (Format UnpackedFloat)
open Float.Model.UnpackedFloat

/-! ## An equivalence -/

/-- Finite numbers that compare as equal are the same one. -/
theorem eq_of_compare_finite {s t : Sign} {m m' : Nat} {e e' : Int} {hpos : 0 < m}
    {hpos' : 0 < m'}
    (h : (UnpackedFloat.finite s m e hpos).compare (.finite t m' e' hpos') = some .eq) :
    UnpackedFloat.finite s m e hpos = .finite t m' e' hpos' := by
  have hsame (hthen : (compare e e').then (compare m m') = .eq) : m = m' ∧ e = e' := by
    obtain ⟨he, hm⟩ := Ordering.then_eq_eq.mp hthen
    exact ⟨Std.compare_eq_iff_eq.mp hm, Std.compare_eq_iff_eq.mp he⟩
  cases s with
  | positive =>
    cases t with
    | positive =>
      obtain ⟨rfl, rfl⟩ := hsame (Option.some.inj h)
      rfl
    | negative => exact nomatch h
  | negative =>
    cases t with
    | positive => exact nomatch h
    | negative =>
      obtain ⟨rfl, rfl⟩ := hsame (Ordering.swap_eq_eq.mp (Option.some.inj h))
      rfl

/-- The numbers are the same one, or both are zeros, whose signs do not matter. -/
theorem compare_eq_iff {u v : UnpackedFloat} : u.compare v = some .eq ↔
    (∃ s t, u = .zero s ∧ v = .zero t) ∨ (u = v ∧ u ≠ .notANumber) := by
  constructor
  · intro h
    match u, v, h with
    | .zero s, .zero t, _ => exact .inl ⟨s, t, rfl, rfl⟩
    | .finite _ _ _ _, .finite _ _ _ _, h => exact .inr ⟨eq_of_compare_finite h, nofun⟩
    | .finite s _ _ _, .zero _, h => cases s <;> exact nomatch h
    | .infinity .positive, .infinity .positive, _ => exact .inr ⟨rfl, nofun⟩
    | .infinity .negative, .infinity .negative, _ => exact .inr ⟨rfl, nofun⟩
  · rintro (⟨s, t, rfl, rfl⟩ | ⟨rfl, hu⟩)
    · rfl
    · exact compare_self hu

theorem beq_iff {x y : Float} :
    (x == y) = true ↔ x.toModel.unpack.compare y.toModel.unpack = some .eq := by
  change (x.toModel.unpack.compare y.toModel.unpack == some .eq) = true ↔ _
  exact beq_iff_eq

theorem beq_symm {x y : Float} (h : (x == y) = true) : (y == x) = true := by
  rw [beq_iff, compare_eq_iff] at h ⊢
  rcases h with ⟨s, t, hx, hy⟩ | ⟨hsame, hx⟩
  · exact .inl ⟨t, s, hy, hx⟩
  · exact .inr ⟨hsame.symm, hsame ▸ hx⟩

theorem beq_trans {x y z : Float} (h : (x == y) = true) (h' : (y == z) = true) :
    (x == z) = true := by
  rw [beq_iff, compare_eq_iff] at h h' ⊢
  rcases h with ⟨s, t, hx, hy⟩ | ⟨hsame, hx⟩
  · rcases h' with ⟨_, t', _, hz⟩ | ⟨hsame', _⟩
    · exact .inl ⟨s, t', hx, hz⟩
    · exact .inl ⟨s, t, hx, hsame' ▸ hy⟩
  · rw [hsame]
    exact h'

theorem toNat_toBitVec (b : BitVec 1) : (Sign.ofBitVec b).toBitVec.toNat = b.toNat := by
  have hnat := b.isLt
  rcases show b.toNat = 0 ∨ b.toNat = 1 by omega with h | h
  · rw [show b = 0#1 from BitVec.eq_of_toNat_eq h]
    rfl
  · rw [show b = 1#1 from BitVec.eq_of_toNat_eq h]
    rfl

/-- Equal doubles that are finite have the same bits, or both have no bits but the sign. -/
theorem bits_of_beq {x y : Float} (hx : x.toBits.toNat / 2 ^ 52 % 2 ^ 11 ≠ 2047)
    (hy : y.toBits.toNat / 2 ^ 52 % 2 ^ 11 ≠ 2047) (h : (x == y) = true) :
    x.toBits.toNat = y.toBits.toNat ∨
      (x.toBits.toNat % 2 ^ 63 = 0 ∧ y.toBits.toNat % 2 ^ 63 = 0) := by
  have hfields {z : Float} (hz : z.toBits.toNat / 2 ^ 52 % 2 ^ 11 ≠ 2047) :
      (pack .binary64 z.toModel.unpack).toNat = z.toBits.toNat := by
    have hlt : z.toBits.toNat < 2 ^ 64 := z.toBits.toNat_lt
    change (pack .binary64 (unpack .binary64 z.toBits.toBitVec)).toNat = _
    rw [pack_unpack (unpackExponent_ne hz), toNat_packComponents, toNat_unpackExponent,
      toNat_unpackMantissa, toNat_toBitVec, toNat_unpackSign]
    change z.toBits.toNat / 2 ^ 63 * 2 ^ 63 + z.toBits.toNat / 2 ^ 52 % 2 ^ 11 * 2 ^ 52 +
      z.toBits.toNat % 2 ^ 52 = z.toBits.toNat
    omega
  have hzero {z : Float} {s : Sign} (hz : z.toBits.toNat / 2 ^ 52 % 2 ^ 11 ≠ 2047)
      (hunpack : z.toModel.unpack = .zero s) : z.toBits.toNat % 2 ^ 63 = 0 := by
    rw [← hfields hz, hunpack]
    cases s <;> rfl
  rw [beq_iff, compare_eq_iff] at h
  rcases h with ⟨s, t, hs, ht⟩ | ⟨hsame, -⟩
  · exact .inr ⟨hzero hx hs, hzero hy ht⟩
  · exact .inl (by rw [← hfields hx, hsame, hfields hy])

/-! ## Whole numbers -/

/-- A mantissa of at most 53 bits is not shortened. -/
theorem shiftToTargetExponent_of_lt {m : Nat} {e : Int} (hm : m < 2 ^ 53) (he : -1074 ≤ e) :
    shiftToTargetExponent .binary64 m e .exact = (⟨m, false, false⟩, e) := by
  have hlog : m.log2 ≤ 52 := by
    by_cases hzero : m = 0
    · rw [hzero]
      decide
    · exact Nat.le_of_lt_succ ((Nat.log2_lt hzero).mpr hm)
  have htarget : Format.binary64.targetExponent (Float.Model.totalExponent m e) ≤ e := by
    have hmin : Format.binary64.minExponent = -1074 := rfl
    have hbits : (Format.binary64.mantissaBits : Int) = 53 := rfl
    rw [Format.targetExponent, Float.Model.totalExponent, hmin, hbits]
    omega
  rw [shiftToTargetExponent, shiftToExponent, Int.toNat_of_nonpos (by omega)]
  exact congrArg _ (Int.add_zero e)

theorem roundWithAccuracy_of_lt (sign : Sign) {m : Nat} {e : Int} (hm : m < 2 ^ 53)
    (he : -1074 ≤ e) (hpos : 0 < m) :
    roundWithAccuracy .binary64 sign m e .exact = .finite sign m e hpos := by
  have hkeep := shiftToTargetExponent_of_lt hm he
  have hround : ExtendedMantissa.roundedMantissa ⟨m, false, false⟩ = m := rfl
  delta roundWithAccuracy
  dsimp only
  rw [hkeep]
  dsimp only
  rw [hround, hkeep]
  exact dif_neg (Nat.ne_of_gt hpos)

theorem mul_two_pow_lt {k : Nat} (hlog : k.log2 ≤ 52) : k * 2 ^ (52 - k.log2) < 2 ^ 53 := by
  calc k * 2 ^ (52 - k.log2) < 2 ^ (k.log2 + 1) * 2 ^ (52 - k.log2) :=
        Nat.mul_lt_mul_of_pos_right Nat.lt_log2_self (Nat.two_pow_pos _)
    _ = 2 ^ 53 := by rw [← Nat.pow_add, show k.log2 + 1 + (52 - k.log2) = 53 by omega]

/-- A whole number of at most 53 bits is not rounded: its leading bit moves to the front. -/
theorem round_of_lt (sign : Sign) {k : Nat} (hpos : 0 < k) (hk : k < 2 ^ 53) :
    ∃ h, UnpackedFloat.round .binary64 sign k 0 =
      .finite sign (k * 2 ^ (52 - k.log2)) (-((52 - k.log2 : Nat) : Int)) h := by
  have hlog : k.log2 ≤ 52 :=
    Nat.le_of_lt_succ ((Nat.log2_lt (Nat.pos_iff_ne_zero.mp hpos)).mpr hk)
  have hwide := mul_two_pow_lt hlog
  have hmantissa : 0 < k * 2 ^ (52 - k.log2) := Nat.mul_pos hpos (Nat.two_pow_pos _)
  have htarget : Format.binary64.targetExponent (Float.Model.totalExponent k 0) =
      -((52 - k.log2 : Nat) : Int) := by
    have hmin : Format.binary64.minExponent = -1074 := rfl
    have hbits : (Format.binary64.mantissaBits : Int) = 53 := rfl
    rw [Format.targetExponent, Float.Model.totalExponent, hmin, hbits]
    omega
  have hshift : ((0 : Int) - -((52 - k.log2 : Nat) : Int)).toNat = 52 - k.log2 := by omega
  have hexponent : (0 : Int) - ((52 - k.log2 : Nat) : Int) = -((52 - k.log2 : Nat) : Int) := by
    omega
  refine ⟨hmantissa, ?_⟩
  delta UnpackedFloat.round
  dsimp only
  rw [htarget]
  delta decreaseExponent
  dsimp only
  rw [hshift, hexponent, Nat.shiftLeft_eq]
  exact roundWithAccuracy_of_lt _ hwide (by omega) hmantissa

theorem toBits_toFloat (n : UInt64) :
    n.toFloat.toBits.toNat = (pack .binary64 (UnpackedFloat.ofNat .binary64 n.toNat)).toNat :=
  rfl

theorem ofNat_eq_round {k : Nat} (hpos : 0 < k) :
    UnpackedFloat.ofNat .binary64 k = UnpackedFloat.round .binary64 .positive k 0 := by
  have hsign : compare (k : Int) 0 = .gt := Std.compare_eq_gt.mpr (by omega)
  change UnpackedFloat.normalize .binary64 (k : Int) 0 .positive = _
  delta UnpackedFloat.normalize
  rw [hsign]
  rfl

/-- The double of a positive whole number has the leading bits of the number as its mantissa. -/
theorem fields_toFloat {k : Nat} (hpos : 0 < k) (hk : k ≤ 2 ^ 53) : ∃ field mantissa,
    (UInt64.ofNat k).toFloat.toBits.toNat = field * 2 ^ 52 + mantissa ∧ 1023 ≤ field ∧
      field < 2047 ∧ mantissa < 2 ^ 52 ∧ k * 2 ^ 52 = (2 ^ 52 + mantissa) * 2 ^ (field - 1023) := by
  have hnat : (UInt64.ofNat k).toNat = k :=
    UInt64.toNat_ofNat_of_lt' (by rw [UInt64.size]; omega)
  rw [toBits_toFloat, hnat]
  by_cases hlast : k = 2 ^ 53
  · subst hlast
    exact ⟨1076, 0, rfl, by decide, by decide, by decide, by decide⟩
  obtain ⟨hmantissa, hround⟩ := round_of_lt .positive hpos (show k < 2 ^ 53 by omega)
  rw [ofNat_eq_round hpos, hround]
  have hlog : k.log2 ≤ 52 :=
    Nat.le_of_lt_succ ((Nat.log2_lt (Nat.pos_iff_ne_zero.mp hpos)).mpr (by omega))
  have hlow : 2 ^ 52 ≤ k * 2 ^ (52 - k.log2) := by
    calc 2 ^ 52 = 2 ^ k.log2 * 2 ^ (52 - k.log2) := by
          rw [← Nat.pow_add, show k.log2 + (52 - k.log2) = 52 by omega]
      _ ≤ k * 2 ^ (52 - k.log2) :=
          Nat.mul_le_mul_right _ (Nat.log2_self_le (Nat.pos_iff_ne_zero.mp hpos))
  have hhigh : k * 2 ^ (52 - k.log2) < 2 ^ 53 := mul_two_pow_lt hlog
  have hfraction : (BitVec.ofNat 52 (k * 2 ^ (52 - k.log2) - 2 ^ 52)).toNat =
      k * 2 ^ (52 - k.log2) - 2 ^ 52 := by
    rw [BitVec.toNat_ofNat]
    omega
  have hfield : (BitVec.ofNat 11 (1023 + k.log2)).toNat = 1023 + k.log2 := by
    rw [BitVec.toNat_ofNat]
    omega
  rw [pack_normal .positive (BitVec.ofNat 11 (1023 + k.log2))
    (BitVec.ofNat 52 (k * 2 ^ (52 - k.log2) - 2 ^ 52)) (by omega) (by omega) (by omega)]
  rw [toNat_packComponents, hfraction, hfield]
  refine ⟨1023 + k.log2, k * 2 ^ (52 - k.log2) - 2 ^ 52, ?_, by omega, by omega, by omega, ?_⟩
  · exact congrArg (· + _) (Nat.zero_add _)
  · rw [show 2 ^ 52 + (k * 2 ^ (52 - k.log2) - 2 ^ 52) = k * 2 ^ (52 - k.log2) by omega,
      Nat.mul_assoc, ← Nat.pow_add, show 52 - k.log2 + (1023 + k.log2 - 1023) = 52 by omega]

theorem toBits_toFloat_lt {k : Nat} (hk : k ≤ 2 ^ 53) :
    (UInt64.ofNat k).toFloat.toBits.toNat < 2047 * 2 ^ 52 := by
  by_cases hzero : k = 0
  · subst hzero
    decide
  · obtain ⟨field, mantissa, hbits, -, hfield, hmantissa, -⟩ :=
      fields_toFloat (Nat.pos_of_ne_zero hzero) hk
    omega

/-- Whole numbers of magnitude up to `2 ^ 53` have different doubles. -/
theorem toFloat_injective {k l : Nat} (hk : k ≤ 2 ^ 53) (hl : l ≤ 2 ^ 53)
    (h : (UInt64.ofNat k).toFloat.toBits.toNat = (UInt64.ofNat l).toFloat.toBits.toNat) :
    k = l := by
  have hzero : (UInt64.ofNat 0).toFloat.toBits.toNat = 0 := rfl
  rcases Nat.eq_zero_or_pos k with rfl | hkpos
  · rcases Nat.eq_zero_or_pos l with rfl | hlpos
    · rfl
    · obtain ⟨field, mantissa, hbits, hfield, -⟩ := fields_toFloat hlpos hl
      omega
  · obtain ⟨field, mantissa, hbits, hfield, -, hmantissa, hvalue⟩ := fields_toFloat hkpos hk
    rcases Nat.eq_zero_or_pos l with rfl | hlpos
    · omega
    · obtain ⟨field', mantissa', hbits', hfield', -, hmantissa', hvalue'⟩ :=
        fields_toFloat hlpos hl
      obtain rfl : field = field' := by omega
      obtain rfl : mantissa = mantissa' := by omega
      omega

theorem toNat_toBits_ofInt64 {n : Int64} (hn : n.toInt.natAbs ≤ 2 ^ 53) :
    (ofInt64 n).toBits.toNat =
      (if n.toInt < 0 then 2 ^ 63 else 0) +
        (UInt64.ofNat n.toInt.natAbs).toFloat.toBits.toNat := by
  have hlt := toBits_toFloat_lt hn
  rw [ofInt64]
  by_cases hneg : n.toInt < 0
  · rw [if_pos hneg, if_pos hneg, toNat_toBits_neg (by omega)]
    omega
  · rw [if_neg hneg, if_neg hneg, Nat.zero_add]

/-- An integer of magnitude up to `2 ^ 53` is told from the others by its double. -/
theorem eq_of_ofInt64_beq {m n : Int64} (hm : m.toInt.natAbs ≤ 2 ^ 53)
    (hn : n.toInt.natAbs ≤ 2 ^ 53) (h : (ofInt64 m == ofInt64 n) = true) :
    m = n := by
  have hmlt := toBits_toFloat_lt hm
  have hnlt := toBits_toFloat_lt hn
  have hmbits := toNat_toBits_ofInt64 hm
  have hnbits := toNat_toBits_ofInt64 hn
  have hinjective := toFloat_injective hm hn
  have hzero {k : Nat} (hk : k ≤ 2 ^ 53)
      (hbits : (UInt64.ofNat k).toFloat.toBits.toNat = 0) : k = 0 :=
    toFloat_injective hk (Nat.zero_le _) hbits
  have hmzero := hzero hm
  have hnzero := hzero hn
  apply Int64.toInt_inj.mp
  rcases bits_of_beq (by split at hmbits <;> omega) (by split at hnbits <;> omega) h with
    hsame | ⟨hm0, hn0⟩
  · split at hmbits <;> split at hnbits <;> omega
  · split at hmbits <;> split at hnbits <;> omega

end StagedScript.Decimal
