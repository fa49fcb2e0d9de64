import Mathlib.Algebra.Ring.Nat
import StagedScript.Decimal.Notation
import StagedScript.Decimal.Reading

/-!
# The sign of doubles

A double that is not an infinity and not undefined is negated by changing its
sign and nothing else.  Its text is its sign in front of the digits of its
magnitude.
-/

namespace StagedScript.Decimal

open Float.Model (Format)
open Float.Model.UnpackedFloat

/-! ## The fields of a double -/

theorem toNat_packComponents (sign : Sign) (exponent : BitVec 11) (fraction : BitVec 52) :
    (packComponents .binary64 sign exponent fraction).toNat =
      sign.toBitVec.toNat * 2 ^ 63 + exponent.toNat * 2 ^ 52 + fraction.toNat := by
  have hexponent := exponent.isLt
  have hfraction := fraction.isLt
  change (sign.toBitVec ++ exponent ++ fraction).toNat = _
  rw [BitVec.toNat_append, BitVec.toNat_append, ← Nat.shiftLeft_add_eq_or_of_lt hfraction,
    ← Nat.shiftLeft_add_eq_or_of_lt hexponent, Nat.shiftLeft_eq, Nat.shiftLeft_eq]
  omega

theorem toNat_unpackExponent (b : BitVec Format.binary64.numBits) :
    (unpackExponent b).toNat = b.toNat / 2 ^ 52 % 2 ^ 11 := by
  simp [unpackExponent, BitVec.extractLsb, Nat.shiftRight_eq_div_pow]

theorem toNat_unpackMantissa (b : BitVec Format.binary64.numBits) :
    (unpackMantissa b).toNat = b.toNat % 2 ^ 52 := by
  simp [unpackMantissa, BitVec.extractLsb]

theorem toNat_unpackSign (b : BitVec Format.binary64.numBits) :
    (unpackSign b).toNat = b.toNat / 2 ^ 63 := by
  have hb : b.toNat < 2 ^ 64 := b.isLt
  delta unpackSign
  simp [BitVec.extractLsb, Nat.shiftRight_eq_div_pow]
  omega

theorem toNat_toBitVec_neg (b : BitVec 1) :
    (-(Sign.ofBitVec b)).toBitVec.toNat = 1 - b.toNat := by
  have hcases : b = 0#1 ∨ b = 1#1 := by
    have := b.isLt
    rcases (show b.toNat = 0 ∨ b.toNat = 1 by omega) with h | h
    · exact .inl (BitVec.eq_of_toNat_eq h)
    · exact .inr (BitVec.eq_of_toNat_eq h)
  rcases hcases with rfl | rfl <;> rfl

theorem log2_subnormal {m : Nat} (h : m < 2 ^ 52) : ¬m.log2 + 1 = 53 := by
  intro hlog
  by_cases hzero : m = 0
  · subst hzero
    exact absurd hlog (by decide)
  · have hle := (Nat.le_log2 hzero).mp (show 52 ≤ m.log2 by omega)
    omega

theorem log2_normal {m : Nat} (h : m < 2 ^ 52) : (2 ^ 52 + m).log2 = 52 :=
  (Nat.log2_eq_iff (by omega)).mpr ⟨by omega, by omega⟩

theorem pack_subnormal (sign : Sign) (fraction : BitVec 52) {exponent : Int}
    (hexponent : exponent = -1074) (hpos : 0 < fraction.toNat) :
    pack .binary64 (.finite sign fraction.toNat exponent hpos) =
      packComponents .binary64 sign 0#11 fraction := by
  subst hexponent
  have hbits : Format.binary64.mantissaBits = 53 := rfl
  delta pack
  simp only [hbits, if_neg (log2_subnormal fraction.isLt)]
  rw [if_neg (by decide)]
  simp

theorem pack_normal (sign : Sign) (field : BitVec 11) (fraction : BitVec 52) {m : Nat}
    {exponent : Int} (hm : m = 2 ^ 52 + fraction.toNat) (hexponent : exponent = field.toNat - 1075)
    (hlast : field.toNat ≠ 2047) (hpos : 0 < m) :
    pack .binary64 (.finite sign m exponent hpos) = packComponents .binary64 sign field fraction := by
  subst hm hexponent
  have hbits : Format.binary64.mantissaBits = 53 := rfl
  have hlimit : 2 ^ Format.binary64.exponentBits = 2048 := rfl
  have hbias : (Format.binary64.exponentBias : Int) = 1023 := rfl
  have hwidth : (Format.binary64.mantissaBitsWithoutImplicit : Int) = 52 := rfl
  have hfield := field.isLt
  have hfraction := fraction.isLt
  have hback : ((field.toNat : Int) - 1075 + Format.binary64.exponentBias +
      Format.binary64.mantissaBitsWithoutImplicit).toNat = field.toNat := by
    omega
  delta pack
  simp only [log2_normal hfraction, hback, hbits]
  rw [if_neg (by rw [hlimit]; omega), if_pos trivial]
  congr 1
  · simp
  · apply BitVec.eq_of_toNat_eq
    rw [BitVec.toNat_ofNat]
    omega

theorem toNat_implicit_append (fraction : BitVec 52) :
    (1#1 ++ fraction).toNat = 2 ^ 52 + fraction.toNat := by
  rw [BitVec.toNat_append, ← Nat.shiftLeft_add_eq_or_of_lt fraction.isLt, Nat.shiftLeft_eq]
  rfl

section Unpacked

variable {b : BitVec Format.binary64.numBits}
  (hb : unpackExponent b ≠ -BitVec.ofNat Format.binary64.exponentBits 1)

include hb

theorem toNat_unpackExponent_ne : (unpackExponent b).toNat ≠ 2047 :=
  fun h => hb (BitVec.eq_of_toNat_eq h)

/-- A finite double is a zero, or it has a subnormal or a normal magnitude. -/
theorem unpack_cases {P : Float.Model.UnpackedFloat → Prop}
    (zero : unpackExponent b = 0#11 → unpackMantissa b = 0#52 →
      P (.zero (Sign.ofBitVec (unpackSign b))))
    (subnormal : unpackExponent b = 0#11 → ∀ hpos,
      P (.finite (Sign.ofBitVec (unpackSign b)) (unpackMantissa b).toNat (-1074) hpos))
    (normal : ∀ hpos, P (.finite (Sign.ofBitVec (unpackSign b)) (1#1 ++ unpackMantissa b).toNat
      ((unpackExponent b).toNat - 1075) hpos)) :
    P (unpack .binary64 b) := by
  delta unpack
  dsimp only
  rw [if_neg hb]
  by_cases hzero : unpackExponent b = 0#11
  · rw [if_pos hzero]
    by_cases hfraction : unpackMantissa b = 0#52
    · rw [dif_pos hfraction]
      exact zero hzero hfraction
    · rw [dif_neg hfraction, hzero]
      exact subnormal hzero _
  · rw [if_neg hzero]
    exact normal _

/-- Packing a finite double again gives its fields. -/
theorem pack_unpack : pack .binary64 (unpack .binary64 b) =
    packComponents .binary64 (Sign.ofBitVec (unpackSign b)) (unpackExponent b)
      (unpackMantissa b) := by
  refine unpack_cases (P := fun u => pack .binary64 u = _) hb ?_ ?_ ?_
  · intro hzero hfraction
    rw [hzero, hfraction]
    rfl
  · intro hzero hpos
    rw [hzero]
    exact pack_subnormal _ _ rfl hpos
  · exact fun hpos =>
      pack_normal _ _ _ (toNat_implicit_append _) rfl (toNat_unpackExponent_ne hb) hpos

/-- Negating a finite double changes its sign field only. -/
theorem pack_neg_unpack : pack .binary64 (unpack .binary64 b).neg =
    packComponents .binary64 (-(Sign.ofBitVec (unpackSign b))) (unpackExponent b)
      (unpackMantissa b) := by
  refine unpack_cases (P := fun u => pack .binary64 u.neg = _) hb ?_ ?_ ?_
  · intro hzero hfraction
    rw [hzero, hfraction]
    rfl
  · intro hzero hpos
    rw [hzero]
    exact pack_subnormal _ _ rfl hpos
  · exact fun hpos =>
      pack_normal _ _ _ (toNat_implicit_append _) rfl (toNat_unpackExponent_ne hb) hpos

end Unpacked

theorem unpackExponent_ne {x : Float} (hx : x.toBits.toNat / 2 ^ 52 % 2 ^ 11 ≠ 2047) :
    unpackExponent (show BitVec Format.binary64.numBits from x.toBits.toBitVec) ≠
      -BitVec.ofNat Format.binary64.exponentBits 1 := by
  intro h
  apply hx
  have hfield := congrArg BitVec.toNat h
  rw [toNat_unpackExponent] at hfield
  exact hfield

theorem toNat_toBits_neg {x : Float} (hx : x.toBits.toNat / 2 ^ 52 % 2 ^ 11 ≠ 2047) :
    (-x).toBits.toNat = (1 - x.toBits.toNat / 2 ^ 63) * 2 ^ 63 + x.toBits.toNat % 2 ^ 63 := by
  have hb := unpackExponent_ne hx
  change (pack .binary64 (unpack .binary64 x.toBits.toBitVec).neg).toNat = _
  rw [pack_neg_unpack hb, toNat_packComponents, toNat_toBitVec_neg, toNat_unpackSign,
    toNat_unpackExponent, toNat_unpackMantissa]
  change (1 - x.toBits.toNat / 2 ^ 63) * 2 ^ 63 + x.toBits.toNat / 2 ^ 52 % 2 ^ 11 * 2 ^ 52 +
    x.toBits.toNat % 2 ^ 52 = _
  omega

theorem exponent_of_decode {x : Float} {b : Binary} (h : decode x = .finite b) :
    x.toBits.toNat / 2 ^ 52 % 2 ^ 11 ≠ 2047 := by
  intro hfield
  unfold decode at h
  simp only [Nat.pow_eq] at h
  rw [if_pos hfield] at h
  split at h <;> cases h

theorem decode_neg {x : Float} {b : Binary} (h : decode x = .finite b) :
    decode (-x) = .finite { b with negative := !b.negative } := by
  have hne := exponent_of_decode h
  have hbits := toNat_toBits_neg hne
  have hlt : x.toBits.toNat < 2 ^ 64 := x.toBits.toNat_lt
  have hfield : (-x).toBits.toNat / 2 ^ 52 % 2 ^ 11 = x.toBits.toNat / 2 ^ 52 % 2 ^ 11 := by
    omega
  have hfraction : (-x).toBits.toNat % 2 ^ 52 = x.toBits.toNat % 2 ^ 52 := by omega
  have hsign : decide (2 ^ 63 ≤ (-x).toBits.toNat) = !decide (2 ^ 63 ≤ x.toBits.toNat) := by
    rw [← decide_not, decide_eq_decide]
    omega
  unfold decode at h ⊢
  simp only [Nat.pow_eq] at h ⊢
  rw [hfield, hfraction, hsign]
  rw [if_neg hne] at h ⊢
  split
  · next hzero =>
    rw [if_pos hzero] at h
    cases h
    rfl
  · next hpos =>
    rw [if_neg hpos] at h
    cases h
    rfl

theorem neg_neg_of_finite {x : Float} {b : Binary} (h : decode x = .finite b) : - -x = x := by
  have hbits := toNat_toBits_neg (exponent_of_decode h)
  have hbits' := toNat_toBits_neg (exponent_of_decode (decode_neg h))
  have hlt : x.toBits.toNat < 2 ^ 64 := x.toBits.toNat_lt
  have hsame : (- -x).toBits = x.toBits := by
    apply UInt64.toNat_inj.mp
    omega
  cases hy : - -x with
  | ofModel y =>
    cases x with
    | ofModel x =>
      rw [hy] at hsame
      cases x
      cases y
      congr

theorem toNat_toBits_ofBits {bits : UInt64} (h : bits.toNat < 2047 * 2 ^ 52) :
    (Float.ofBits bits).toBits.toNat = bits.toNat := by
  have hfield : unpackExponent (show BitVec Format.binary64.numBits from bits.toBitVec) ≠
      -BitVec.ofNat Format.binary64.exponentBits 1 := by
    intro heq
    have hlast := congrArg BitVec.toNat heq
    rw [toNat_unpackExponent] at hlast
    change bits.toNat / 2 ^ 52 % 2 ^ 11 = 2047 at hlast
    omega
  have hsign : (Sign.ofBitVec (unpackSign (show BitVec Format.binary64.numBits from
      bits.toBitVec))).toBitVec.toNat = 0 := by
    have hzero : unpackSign (show BitVec Format.binary64.numBits from bits.toBitVec) = 0#1 := by
      apply BitVec.eq_of_toNat_eq
      rw [toNat_unpackSign]
      change bits.toNat / 2 ^ 63 = 0
      omega
    rw [hzero]
    rfl
  change (pack .binary64 (unpack .binary64 bits.toBitVec)).toNat = _
  rw [pack_unpack hfield, toNat_packComponents, hsign, toNat_unpackExponent, toNat_unpackMantissa]
  change 0 * 2 ^ 63 + bits.toNat / 2 ^ 52 % 2 ^ 11 * 2 ^ 52 + bits.toNat % 2 ^ 52 = bits.toNat
  omega

theorem isNegative_ofBits {bits : Nat} (h : bits ≤ 2047 * 2 ^ 52) :
    isNegative (Float.ofBits (UInt64.ofNat bits)) = false := by
  by_cases hlast : bits = 2047 * 2 ^ 52
  · subst hlast
    rfl
  · have hbits : (UInt64.ofNat bits).toNat = bits :=
      UInt64.toNat_ofNat_of_lt' (by rw [UInt64.size]; omega)
    have hfinite : (UInt64.ofNat bits).toNat < 2047 * 2 ^ 52 := by omega
    have hsame := toNat_toBits_ofBits hfinite
    have hsign : decide (Nat.pow 2 63 ≤ (Float.ofBits (UInt64.ofNat bits)).toBits.toNat) = false := by
      rw [hsame, hbits, Nat.pow_eq]
      simp
      omega
    unfold isNegative decode
    dsimp only
    rw [hsign]
    split
    · rfl
    · next heq =>
      split at heq
      · split at heq <;> cases heq
        rfl
      · split at heq <;> cases heq
    · next heq =>
      split at heq
      · split at heq <;> cases heq
      · split at heq <;> cases heq <;> rfl

theorem nearestBits_le (n d : Nat) : nearestBits n d ≤ 2047 * 2 ^ 52 := by
  have hle {m q : Nat} : (if m < 2 ^ 52 then m else min q (2047 * 2 ^ 52)) ≤ 2047 * 2 ^ 52 := by
    split <;> omega
  exact hle

/-- The sign of a number is not part of its numeral. -/
theorem isNegative_nearest (d : Numeral) : isNegative (nearest d) = false := by
  unfold nearest
  split
  · rfl
  dsimp only
  split
  · rfl
  split
  · rfl
  · exact isNegative_ofBits (nearestBits_le _ _)

theorem unpack_ne_notANumber {b : BitVec Format.binary64.numBits}
    (hb : unpackExponent b ≠ -BitVec.ofNat Format.binary64.exponentBits 1) :
    unpack .binary64 b ≠ .notANumber :=
  unpack_cases (P := (· ≠ .notANumber)) hb (fun _ _ => Float.Model.UnpackedFloat.noConfusion)
    (fun _ _ => Float.Model.UnpackedFloat.noConfusion) fun _ => Float.Model.UnpackedFloat.noConfusion

theorem compare_self {u : Float.Model.UnpackedFloat} (hu : u ≠ .notANumber) :
    u.compare u = some .eq := by
  cases u with
  | notANumber => exact absurd rfl hu
  | infinity sign => cases sign <;> rfl
  | zero sign => rfl
  | finite sign mantissa exponent hpos =>
    have hsame : (compare exponent exponent).then (compare mantissa mantissa) = .eq := by
      rw [Std.compare_self, Std.compare_self]
      rfl
    cases sign with
    | positive => exact congrArg some hsame
    | negative => exact congrArg (fun order => some order.swap) hsame

theorem decode_of_isFinite {x : Float} (h : isFinite x = true) : ∃ b, decode x = .finite b := by
  cases hx : decode x with
  | finite b => exact ⟨b, rfl⟩
  | infinite negative => simp [isFinite, hx] at h
  | notANumber => simp [isFinite, hx] at h

theorem isFinite_neg {x : Float} (h : isFinite x = true) : isFinite (-x) = true := by
  obtain ⟨b, hb⟩ := decode_of_isFinite h
  rw [isFinite, decode_neg hb]

theorem exponent_of_isFinite_eq_false {x : Float} (h : isFinite x = false) :
    x.toBits.toNat / 2 ^ 52 % 2 ^ 11 = 2047 := by
  apply Decidable.byContradiction
  intro hne
  unfold isFinite decode at h
  simp only [Nat.pow_eq] at h
  rw [if_neg hne] at h
  split at h
  · exact Bool.noConfusion h
  · next hother => split at hother <;> exact hother _ rfl

/-- Negation does not make a double finite. -/
theorem isFinite_of_neg {x : Float} (h : isFinite (-x) = true) : isFinite x = true := by
  apply Decidable.byContradiction
  intro hnot
  have hfield := exponent_of_isFinite_eq_false (Bool.eq_false_iff.mpr hnot)
  have hexponent : unpackExponent (show BitVec Format.binary64.numBits from x.toBits.toBitVec) =
      -BitVec.ofNat Format.binary64.exponentBits 1 := by
    apply BitVec.eq_of_toNat_eq
    rw [toNat_unpackExponent]
    exact hfield
  obtain ⟨b, hb⟩ := decode_of_isFinite h
  apply exponent_of_decode hb
  change (pack .binary64 (unpack .binary64 x.toBits.toBitVec).neg).toNat / 2 ^ 52 % 2 ^ 11 = 2047
  delta unpack
  dsimp only
  rw [if_pos hexponent]
  split
  · cases Sign.ofBitVec (unpackSign (show BitVec Format.binary64.numBits from x.toBits.toBitVec)) <;>
      rfl
  · rfl

theorem beq_self_of_finite {x : Float} (h : isFinite x = true) : (x == x) = true := by
  obtain ⟨b, hb⟩ := decode_of_isFinite h
  have hcompare := compare_self (unpack_ne_notANumber (unpackExponent_ne (exponent_of_decode hb)))
  show (Float.Model.UnpackedFloat.compare _ _ == some Ordering.eq) = true
  exact beq_iff_eq.mpr hcompare

/-- The digits that are printed for a finite double are read as its magnitude. -/
def ReadsBack (x : Float) : Prop :=
  ∀ b, decode x = .finite b →
    readMagnitude? (magnitudeText b).toList = some (if b.negative then -x else x)

/-- The sign does not change the digits that are printed. -/
theorem ReadsBack.neg {x : Float} {b : Binary} (h : ReadsBack x) (hb : decode x = .finite b) :
    ReadsBack (-x) := by
  intro b' hb'
  rw [decode_neg hb] at hb'
  obtain rfl := Parts.finite.inj hb'
  have hread := h b hb
  change readMagnitude? (magnitudeText b).toList = _
  rw [hread, neg_neg_of_finite hb]
  cases b.negative with
  | true => rfl
  | false => rfl

/-- The double that the digits printed for a magnitude are read as. -/
def reread (b : Binary) : Float :=
  (readMagnitude? (magnitudeText b).toList).getD 0

theorem ReadsBack.reread_eq {x : Float} (h : ReadsBack x) {b : Binary}
    (hb : decode x = .finite b) : reread b = if b.negative then -x else x := by
  rw [reread, h b hb, Option.getD_some]

end StagedScript.Decimal
