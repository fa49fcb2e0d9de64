import Mathlib.Algebra.Order.Field.Power
import Mathlib.Data.Rat.Floor
import Mathlib.Tactic.FieldSimp
import Mathlib.Tactic.Linarith
import StagedScript.Builtin.Function
import StagedScript.Builtin.Mathematics

/-!
# Doubles as whole numbers

A finite double stands for a rational number, and each function that makes a whole
number of it starts from the exact one: the number without its fraction, the greatest
that is not above, the least that is not below, or the nearest with a half to the even
neighbour.  What has more than 64 bits becomes the end of the range next to it, and
nothing is raised: `conversions_saturate`.
-/

namespace StagedScript

namespace Decimal

namespace Binary

def magnitude (b : Binary) : ℚ :=
  b.mantissa * 2 ^ b.exponent

def value (b : Binary) : ℚ :=
  if b.negative then -b.magnitude else b.magnitude

theorem magnitude_nonneg (b : Binary) : 0 ≤ b.magnitude := by
  unfold magnitude
  positivity

theorem rest_lt_denominator (b : Binary) : b.split.rest < b.split.denominator := by
  unfold split
  split
  · exact Nat.one_pos
  · exact Nat.mod_lt _ (Nat.two_pow_pos _)

theorem denominator_pos (b : Binary) : (0 : ℚ) < b.split.denominator := by
  exact_mod_cast Nat.zero_lt_of_lt b.rest_lt_denominator

/-- The parts of the split make up the magnitude. -/
theorem magnitude_eq (b : Binary) :
    b.magnitude = b.split.whole + (b.split.rest : ℚ) / b.split.denominator := by
  unfold magnitude split
  split
  · next hexponent =>
    obtain ⟨n, hn⟩ := Int.eq_ofNat_of_zero_le hexponent
    simp [hn]
  · next hexponent =>
    obtain ⟨n, hn⟩ := Int.eq_ofNat_of_zero_le (show 0 ≤ -b.exponent by omega)
    have htoNat : (-b.exponent).toNat = n := by omega
    have hpower : (2 : ℚ) ^ b.exponent = (2 ^ n)⁻¹ := by
      rw [← neg_neg b.exponent, hn, zpow_neg]
      rfl
    have hsplit : ((b.mantissa / 2 ^ n : ℕ) : ℚ) * 2 ^ n + (b.mantissa % 2 ^ n : ℕ) =
        b.mantissa := by
      exact_mod_cast Nat.div_add_mod' b.mantissa (2 ^ n)
    simp only [Nat.pow_eq, htoNat, hpower, Nat.cast_pow, Nat.cast_ofNat]
    field_simp
    linarith

/-- What is left behind the point is less than one. -/
theorem fraction_bounds (b : Binary) :
    0 ≤ (b.split.rest : ℚ) / b.split.denominator ∧
      (b.split.rest : ℚ) / b.split.denominator < 1 := by
  have hrest : (b.split.rest : ℚ) < b.split.denominator := by
    exact_mod_cast b.rest_lt_denominator
  exact ⟨by positivity, (div_lt_one b.denominator_pos).mpr hrest⟩

theorem floor_magnitude (b : Binary) : ⌊b.magnitude⌋ = b.split.whole := by
  obtain ⟨hnonneg, hlt⟩ := b.fraction_bounds
  rw [b.magnitude_eq, Int.floor_eq_iff, Int.cast_natCast]
  constructor <;> linarith

theorem ceil_magnitude (b : Binary) :
    ⌈b.magnitude⌉ = if b.split.rest = 0 then (b.split.whole : Int) else b.split.whole + 1 := by
  obtain ⟨-, hlt⟩ := b.fraction_bounds
  rw [b.magnitude_eq]
  split
  · next hrest => simp [hrest]
  · next hrest =>
    have hpos : 0 < (b.split.rest : ℚ) / b.split.denominator :=
      div_pos (by exact_mod_cast Nat.pos_of_ne_zero hrest) b.denominator_pos
    rw [Int.ceil_eq_iff]
    push_cast
    constructor <;> linarith

/-! ## Exact whole numbers -/

theorem floor_eq (b : Binary) : b.floor = ⌊b.value⌋ := by
  rw [floor, signed, value]
  cases b.negative with
  | false => simp [b.floor_magnitude]
  | true =>
    rw [if_pos rfl, if_pos rfl, Int.floor_neg, b.ceil_magnitude]
    by_cases hrest : b.split.rest = 0 <;> simp [hrest]

theorem ceil_eq (b : Binary) : b.ceil = ⌈b.value⌉ := by
  rw [ceil, signed, value]
  cases b.negative with
  | true => simp [b.floor_magnitude, Int.ceil_neg]
  | false =>
    simp only [Bool.false_eq_true, if_false]
    rw [b.ceil_magnitude]
    by_cases hrest : b.split.rest = 0 <;> simp [hrest]

/-- The whole number that is left if the fraction of a number is dropped. -/
def truncation (q : ℚ) : Int :=
  if q < 0 then ⌈q⌉ else ⌊q⌋

theorem truncate_eq (b : Binary) : b.truncate = truncation b.value := by
  have hnonneg := b.magnitude_nonneg
  rw [truncate, signed, truncation, value]
  cases b.negative with
  | false =>
    simp [b.floor_magnitude, not_lt.mpr hnonneg]
  | true =>
    simp only [if_true]
    split
    · rw [Int.ceil_neg, b.floor_magnitude]
    · next hneg =>
      have hzero : b.magnitude = 0 := by linarith
      have hwhole : ⌊b.magnitude⌋ = 0 := by rw [hzero, Int.floor_zero]
      rw [b.floor_magnitude] at hwhole
      rw [hzero, neg_zero, Int.floor_zero, hwhole, neg_zero]

/-- The whole number is nearest to a number, and even if another one is as near. -/
structure IsNearestEven (q : ℚ) (n : Int) : Prop where
  near : |(n : ℚ) - q| ≤ 1 / 2
  even : |(n : ℚ) - q| = 1 / 2 → Even n

theorem IsNearestEven.neg {q : ℚ} {n : Int} (h : IsNearestEven q n) : IsNearestEven (-q) (-n) := by
  have hdistance : |((-n : Int) : ℚ) - -q| = |(n : ℚ) - q| := by
    rw [Int.cast_neg, neg_sub_neg, abs_sub_comm]
  exact ⟨hdistance ▸ h.near, fun htie => (h.even (hdistance ▸ htie)).neg⟩

/-- There is one such whole number only. -/
theorem IsNearestEven.unique {q : ℚ} {n k : Int} (hn : IsNearestEven q n)
    (hk : IsNearestEven q k) : n = k := by
  obtain ⟨hn₁, hn₂⟩ := abs_le.mp hn.near
  obtain ⟨hk₁, hk₂⟩ := abs_le.mp hk.near
  have hup : n - k ≤ 1 := by
    have : ((n - k : Int) : ℚ) ≤ (1 : Int) := by push_cast; linarith
    exact_mod_cast this
  have hdown : k - n ≤ 1 := by
    have : ((k - n : Int) : ℚ) ≤ (1 : Int) := by push_cast; linarith
    exact_mod_cast this
  -- Neighbours could only be equally near, and then both would be even.
  by_contra hne
  rcases (by omega : n = k + 1 ∨ k = n + 1) with rfl | rfl
  · push_cast at hn₂
    have heven := hn.even (by rw [abs_of_nonneg] <;> push_cast <;> linarith)
    have heven' := hk.even (by rw [abs_of_nonpos] <;> linarith)
    rw [Int.even_iff] at heven heven'
    omega
  · push_cast at hk₂
    have heven := hk.even (by rw [abs_of_nonneg] <;> push_cast <;> linarith)
    have heven' := hn.even (by rw [abs_of_nonpos] <;> linarith)
    rw [Int.even_iff] at heven heven'
    omega

/-- A number between two neighbours is next to the one that is less than a half away. -/
theorem isNearestEven_of_lt {q : ℚ} {n : Int} (h : |(n : ℚ) - q| < 1 / 2) : IsNearestEven q n :=
  ⟨h.le, fun htie => absurd htie h.ne⟩

/-- Rounding the magnitude compares twice the rest with the denominator. -/
theorem nearest_magnitude (b : Binary) :
    IsNearestEven b.magnitude
      (if (if 2 * b.split.rest = b.split.denominator then b.split.whole % 2 = 1
        else b.split.denominator < 2 * b.split.rest)
      then b.split.whole + 1 else b.split.whole : ℕ) := by
  have hpos := b.denominator_pos
  obtain ⟨hnonneg, hlt⟩ := b.fraction_bounds
  have hvalue := b.magnitude_eq
  by_cases htie : 2 * b.split.rest = b.split.denominator
  · have hhalf : (b.split.rest : ℚ) / b.split.denominator = 1 / 2 := by
      rw [div_eq_div_iff hpos.ne' two_ne_zero, one_mul, mul_comm]
      exact_mod_cast htie
    rw [hhalf] at hvalue
    simp only [if_pos htie, hvalue]
    split
    · next hodd =>
      refine ⟨?_, fun _ => ?_⟩
      · rw [abs_of_nonneg] <;> push_cast <;> linarith
      · rw [Int.even_coe_nat, Nat.even_iff]
        omega
    · next heven =>
      refine ⟨?_, fun _ => ?_⟩
      · rw [abs_of_nonpos] <;> push_cast <;> linarith
      · rw [Int.even_coe_nat, Nat.even_iff]
        omega
  · simp only [if_neg htie]
    apply isNearestEven_of_lt
    split
    · next hup =>
      have hhalf : 1 / 2 < (b.split.rest : ℚ) / b.split.denominator := by
        rw [div_lt_div_iff₀ two_pos hpos, one_mul, mul_comm]
        exact_mod_cast hup
      rw [hvalue, abs_of_nonneg] <;> push_cast <;> linarith
    · next hup =>
      have hhalf : (b.split.rest : ℚ) / b.split.denominator < 1 / 2 := by
        rw [div_lt_div_iff₀ hpos two_pos, one_mul, mul_comm]
        exact_mod_cast (show 2 * b.split.rest < b.split.denominator by omega)
      rw [hvalue, abs_of_nonpos] <;> push_cast <;> linarith

theorem isNearestEven_roundHalfEven (b : Binary) : IsNearestEven b.value b.roundHalfEven := by
  have hnearest := b.nearest_magnitude
  rw [roundHalfEven, signed, value]
  cases b.negative with
  | false => exact hnearest
  | true => exact hnearest.neg

end Binary

theorem toInt_clampInt64 (n : Int) :
    (clampInt64 n).toInt = max (-2 ^ 63) (min (2 ^ 63 - 1) n) := by
  have hleast : int64Min = -2 ^ 63 := rfl
  have hgreatest : int64Max = 2 ^ 63 - 1 := rfl
  rw [clampInt64, hleast, hgreatest]
  apply Int64.toInt_ofInt_of_le <;> omega

end Decimal

namespace Builtin

open Decimal (Binary)

/-- A function gives the exact whole number, or the end of the range of 64 bits next to it, and
changes nothing. -/
def Saturates (m : Machine) (run : Run Value) (exact : Int) : Prop :=
  ∃ n : Int64, run m = .ok (.int n) m ∧ n.toInt = max (-2 ^ 63) (min (2 ^ 63 - 1) exact)

theorem saturates_toInt64 {x : Float} {b : Binary} (hx : Decimal.decode x = .finite b)
    (round : Binary → Int) {m : Machine} {run : Run Value}
    (hrun : run m = .ok (.int (Decimal.toInt64 round x)) m) : Saturates m run (round b) := by
  refine ⟨_, hrun, ?_⟩
  rw [Decimal.toInt64, hx, Decimal.toInt_clampInt64]

/-- The functions that make a whole number of a finite double never fail: they give the exact one
as far as it has 64 bits. -/
theorem conversions_saturate {x : Float} {b : Binary} (hx : Decimal.decode x = .finite b)
    (m : Machine) :
    Saturates m (callGlobal .int [.float x]) (Binary.truncation b.value) ∧
      Saturates m (callMath .floor [.float x]) ⌊b.value⌋ ∧
      Saturates m (callMath .ceil [.float x]) ⌈b.value⌉ ∧
      ∃ nearest, (∀ n, Binary.IsNearestEven b.value n ↔ n = nearest) ∧
        Saturates m (callGlobal .round [.float x]) nearest := by
  have hfinite : Decimal.isFinite x = true := by rw [Decimal.isFinite, hx]
  have hwhole (f : MathFunction) (round : Binary → Int) :
      wholeNumber f round [.float x] m = .ok (.int (Decimal.toInt64 round x)) m := by
    change (if Decimal.isFinite x then _ else _ : Run Value) m = _
    rw [if_pos hfinite]
    rfl
  refine ⟨?_, ?_, ?_, b.roundHalfEven, fun n => ⟨?_, ?_⟩, ?_⟩
  · rw [← b.truncate_eq]
    apply saturates_toInt64 hx
    change (if Decimal.isFinite x then _ else _ : Run Value) m = _
    rw [if_pos hfinite]
    rfl
  · rw [← b.floor_eq]
    exact saturates_toInt64 hx _ (hwhole .floor _)
  · rw [← b.ceil_eq]
    exact saturates_toInt64 hx _ (hwhole .ceil _)
  · exact fun hn => hn.unique b.isNearestEven_roundHalfEven
  · rintro rfl
    exact b.isNearestEven_roundHalfEven
  · exact saturates_toInt64 hx _ rfl

-- The number has more than 63 bits.
example : callGlobal .int [.float 1e19] {} = .ok (.int Int64.maxValue) {} := by rfl

end Builtin

end StagedScript
