import Mathlib.Algebra.Order.Ring.Abs
import Mathlib.Data.Rat.Floor
import StagedScript.Builtin.Function

/-!
# Exact arithmetic

An operation on whole numbers gives the exact result, or it raises an exception:
division by zero if there is nothing to divide by, and an overflow if the exact
result has more than 64 bits.  Two operations have a limit in front of this.  A
remainder is refused where the quotient overflows, and a power where the exponent
has more than 32 bits; both raise an overflow whatever the result.
-/

namespace StagedScript

open Syntax (BinaryOp UnaryOp)

namespace Integer

theorem fitsInt64_iff {n : Int} : Decimal.fitsInt64 n = true ↔ -2 ^ 63 ≤ n ∧ n < 2 ^ 63 := by
  have hleast : Decimal.int64Min = -2 ^ 63 := rfl
  have hgreatest : Decimal.int64Max = 2 ^ 63 - 1 := rfl
  rw [Decimal.fitsInt64, decide_eq_true_iff, hleast, hgreatest]
  omega

theorem fitsInt64_toInt (a : Int64) : Decimal.fitsInt64 a.toInt = true :=
  fitsInt64_iff.mpr ⟨a.le_toInt, a.toInt_lt⟩

theorem checked_toInt (a : Int64) : checked a.toInt = .ok a := by
  rw [checked, if_pos (fitsInt64_toInt a), Int64.ofInt_toInt]

/-- A number of more than 64 bits is an overflow, and all others are given as they are. -/
theorem checked_eq_ok_iff {n : Int} {r : Int64} : checked n = .ok r ↔ r.toInt = n := by
  constructor
  · exact toInt_of_checked
  · rintro rfl
    exact checked_toInt r

theorem toInt_eq_zero_iff {a : Int64} : a.toInt = 0 ↔ a = 0 := by
  rw [← Int64.toInt_zero, Int64.toInt_inj]

theorem toInt_add_of_fits {a b : Int64} (h : Decimal.fitsInt64 (a.toInt + b.toInt) = true) :
    (a + b).toInt = a.toInt + b.toInt := by
  have hfits := fitsInt64_iff.mp h
  rw [Int64.toInt_add]
  exact Int.bmod_eq_of_le (by omega) (by omega)

theorem toInt_sub_of_fits {a b : Int64} (h : Decimal.fitsInt64 (a.toInt - b.toInt) = true) :
    (a - b).toInt = a.toInt - b.toInt := by
  have hfits := fitsInt64_iff.mp h
  rw [Int64.toInt_sub]
  exact Int.bmod_eq_of_le (by omega) (by omega)

theorem checked_eq_error_iff {n : Int} {f : Fault} :
    checked n = .error f ↔ f = .overflow ∧ Decimal.fitsInt64 n = false := by
  rw [checked]
  split
  · next hfits => simp [hfits]
  · next hfits => simp [hfits, eq_comm]

/-- Floor division rounds the exact quotient down. -/
theorem floor_div (a b : Int) : ⌊(a : ℚ) / b⌋ = a.fdiv b := by
  have hnonneg (a : Int) {b : Int} (hb : 0 ≤ b) : ⌊(a : ℚ) / b⌋ = a.fdiv b := by
    lift b to Nat using hb
    rw [Int.fdiv_eq_ediv_of_nonneg _ (Int.natCast_nonneg b)]
    exact Rat.floor_intCast_div_natCast a b
  rcases le_total 0 b with hb | hb
  · exact hnonneg a hb
  · simpa using hnonneg (-a) (neg_nonneg.mpr hb)

theorem sub_mul_floor_div (a b : Int) : a - b * ⌊(a : ℚ) / b⌋ = a.fmod b := by
  rw [floor_div, Int.fmod_def]

/-- A remainder is zero or has the sign of the divisor, and it is smaller than the divisor. -/
theorem fmod_bounds (a : Int) {b : Int} (hb : b ≠ 0) :
    (a.fmod b = 0 ∨ (a.fmod b).sign = b.sign) ∧ |a.fmod b| < |b| := by
  have hpositive {a b : Int} (hb : 0 < b) :
      (a.fmod b = 0 ∨ (a.fmod b).sign = b.sign) ∧ |a.fmod b| < |b| := by
    have hnonneg := Int.fmod_nonneg_of_pos a hb
    have hlt := Int.fmod_lt_of_pos a hb
    rw [abs_of_nonneg hnonneg, abs_of_pos hb, Int.sign_eq_one_of_pos hb]
    refine ⟨?_, hlt⟩
    rcases hnonneg.eq_or_lt with hzero | hpos
    · exact .inl hzero.symm
    · exact .inr (Int.sign_eq_one_of_pos hpos)
  rcases lt_or_gt_of_ne hb with hneg | hpos
  · obtain ⟨hsign, hlt⟩ := hpositive (a := -a) (b := -b) (by omega)
    rw [Int.neg_fmod_neg] at hsign hlt
    simpa using And.intro hsign hlt
  · exact hpositive hpos

/-! ## Quotients that truncate -/

/-- Only the quotient of the least number by minus one does not fit. -/
theorem toInt_div_of_ne {a b : Int64} (h : ¬(a = Int64.minValue ∧ b = -1)) :
    (a / b).toInt = a.toInt.tdiv b.toInt := by
  by_cases ha : a = Int64.minValue
  · exact Int64.toInt_div_of_ne_right a b fun hb => h ⟨ha, hb⟩
  · exact Int64.toInt_div_of_ne_left a b ha

/-- A quotient that truncates is one too large if there is a rest and the signs differ. -/
theorem fdiv_eq_ite (a : Int) {b : Int} (hb : b ≠ 0) : a.fdiv b =
    if a.tmod b ≠ 0 ∧ decide (a < 0) ≠ decide (b < 0) then a.tdiv b - 1 else a.tdiv b := by
  rw [Int.fdiv_eq_tdiv]
  by_cases hdvd : b ∣ a
  · simp [hdvd, Int.dvd_iff_tmod_eq_zero.mp hdvd]
  have hrest : a.tmod b ≠ 0 := fun h => hdvd (Int.dvd_iff_tmod_eq_zero.mpr h)
  rcases lt_or_gt_of_ne hb with hneg | hpos
  · by_cases ha : a < 0
    · simp [hdvd, hneg, hneg.not_ge, Int.sign_eq_neg_one_of_neg hneg, ha, ha.not_ge]
    · simp [hdvd, hrest, hneg, hneg.not_ge, not_lt.mp ha]
  · by_cases ha : a < 0
    · simp [hdvd, hrest, hpos.le, Int.sign_eq_one_of_pos hpos, ha, ha.not_ge]
    · simp [hdvd, hpos.le, hpos.not_gt, ha, not_lt.mp ha]

/-- A rest has the sign of the dividend. -/
theorem tmod_neg_iff {a b : Int} (h : a.tmod b ≠ 0) : a.tmod b < 0 ↔ a < 0 := by
  have hdvd : ¬b ∣ a := fun hdvd => h (Int.dvd_iff_tmod_eq_zero.mp hdvd)
  rw [← Int.sign_eq_neg_one_iff_neg, Int.sign_tmod, if_neg hdvd, Int.sign_eq_neg_one_iff_neg]

/-- A rest is moved by the divisor if their signs differ. -/
theorem fmod_eq_ite (a : Int) {b : Int} (hb : b ≠ 0) : a.fmod b =
    if a.tmod b ≠ 0 ∧ decide (a.tmod b < 0) ≠ decide (b < 0) then a.tmod b + b
    else a.tmod b := by
  have hsigns : (a.tmod b ≠ 0 ∧ decide (a.tmod b < 0) ≠ decide (b < 0)) ↔
      (a.tmod b ≠ 0 ∧ decide (a < 0) ≠ decide (b < 0)) :=
    and_congr_right fun h => by rw [decide_eq_decide.mpr (tmod_neg_iff h)]
  rw [if_congr hsigns rfl rfl, Int.fmod_def, fdiv_eq_ite a hb]
  have hrest := Int.tmod_def a b
  split
  · rw [hrest]
    ring
  · exact hrest.symm

/-- A divisor that leaves a rest has a magnitude of two or more, so the quotient is far from the
least number. -/
theorem fits_tdiv_sub_one (a : Int64) {b : Int} (hb : b ≠ 0) (hrest : a.toInt.tmod b ≠ 0) :
    Decimal.fitsInt64 (a.toInt.tdiv b - 1) = true := by
  have hlarge : 2 ≤ b.natAbs := by
    by_contra hsmall
    obtain rfl | rfl : b = 1 ∨ b = -1 := by omega
    · exact hrest (Int.tmod_one _)
    · exact hrest (by simp)
  have hmagnitude : (a.toInt.tdiv b).natAbs ≤ a.toInt.natAbs / 2 := by
    rw [Int.natAbs_tdiv]
    exact Nat.div_le_div_left hlarge (by decide)
  have hlow := a.le_toInt
  have hhigh := a.toInt_lt
  exact fitsInt64_iff.mpr ⟨by omega, by omega⟩

theorem signs_differ_iff {a b : Int64} : decide (a < 0) ≠ decide (b < 0) ↔
    decide (a.toInt < 0) ≠ decide (b.toInt < 0) := by
  simp only [Int64.lt_iff_toInt_lt, Int64.toInt_zero]

/-- Floor division gives the quotient rounded down, if it fits. -/
theorem floorDiv_eq_checked (a : Int64) {b : Int64} (hb : b ≠ 0) :
    floorDiv a b = checked (a.toInt.fdiv b.toInt) := by
  by_cases hcorner : a = Int64.minValue ∧ b = -1
  · rw [floorDiv, if_neg hb, checkedDiv, if_pos (.inr hcorner), hcorner.1, hcorner.2]
    rfl
  have hb' : b.toInt ≠ 0 := fun h => hb (toInt_eq_zero_iff.mp h)
  have hquotient := toInt_div_of_ne hcorner
  have hrest : a % b ≠ 0 ↔ a.toInt.tmod b.toInt ≠ 0 := by
    rw [← Int64.toInt_mod, ne_eq, ne_eq, toInt_eq_zero_iff]
  rw [floorDiv, if_neg hb, checkedDiv, if_neg (by simp [hb, hcorner])]
  refine (checked_eq_ok_iff.mpr ?_).symm
  rw [fdiv_eq_ite _ hb', ← if_congr (and_congr hrest signs_differ_iff) rfl rfl, ← hquotient]
  split
  · next hfix =>
    exact toInt_sub_of_fits (hquotient ▸ fits_tdiv_sub_one a hb' (hrest.mp hfix.1))
  · rfl

/-- Where the quotient fits, the remainder is that of the quotient rounded down. -/
theorem mod_eq_checked {a b : Int64} (hb : b ≠ 0) (hfits : ¬(a = Int64.minValue ∧ b = -1)) :
    mod a b = checked (a.toInt.fmod b.toInt) := by
  have hb' : b.toInt ≠ 0 := fun h => hb (toInt_eq_zero_iff.mp h)
  have hfix : (a % b ≠ 0 ∧ decide (a % b < 0) ≠ decide (b < 0)) ↔
      (a.toInt.tmod b.toInt ≠ 0 ∧ decide (a.toInt.tmod b.toInt < 0) ≠ decide (b.toInt < 0)) := by
    rw [← Int64.toInt_mod]
    exact and_congr (not_congr toInt_eq_zero_iff.symm) signs_differ_iff
  rw [mod, if_neg hb, checkedRem, if_neg (by simp [hb, hfits])]
  refine (checked_eq_ok_iff.mpr ?_).symm
  rw [fmod_eq_ite _ hb', ← if_congr hfix rfl rfl, ← Int64.toInt_mod]
  split
  · next hmoved =>
    -- The signs differ, so the sum is between its summands.
    have hdiffer := signs_differ_iff.mp hmoved.2
    rw [ne_eq, decide_eq_decide] at hdiffer
    have hrest := fitsInt64_iff.mp (fitsInt64_toInt (a % b))
    have hdivisor := fitsInt64_iff.mp (fitsInt64_toInt b)
    exact toInt_add_of_fits (fitsInt64_iff.mpr (by omega))
  · rfl

/-- A power of a base of two or more in magnitude leaves the 64 bits with the exponent 64. -/
theorem fitsInt64_pow_of_le {a : Int} {exponent : Nat} (ha : 2 ≤ |a|) (hexponent : 64 ≤ exponent) :
    Decimal.fitsInt64 (a ^ exponent) = false := by
  have hlarge : 2 ^ 64 ≤ |a ^ exponent| := by
    rw [abs_pow]
    calc (2 : Int) ^ 64 ≤ 2 ^ exponent := pow_le_pow_right₀ (by decide) hexponent
      _ ≤ |a| ^ exponent := pow_le_pow_left₀ (by decide) ha exponent
  rw [Bool.eq_false_iff, ne_eq, fitsInt64_iff]
  intro hfits
  have hsmall := abs_le.mpr ⟨hfits.1, hfits.2.le⟩
  omega

/-- Up to the greatest exponent a power is the exact one, if it has 64 bits. -/
theorem pow_eq_checked (a : Int64) {exponent : Nat} (h : exponent ≤ maxExponent) :
    pow a exponent = checked (a.toInt ^ exponent) := by
  rw [pow, if_neg (by omega)]
  by_cases hsmall : a = 0 ∨ a = 1
  · have hvalue : a.toInt ^ exponent = (if exponent = 0 then 1 else a : Int64).toInt := by
      rcases hsmall with rfl | rfl
      · split
        · next hzero => rw [hzero, pow_zero, Int64.toInt_one]
        · next hzero => rw [Int64.toInt_zero, zero_pow hzero]
      · rw [ite_self, Int64.toInt_one, one_pow]
    rw [if_pos hsmall, hvalue, checked_toInt]
  rw [if_neg hsmall]
  by_cases hminus : a = -1
  · have hvalue : a.toInt ^ exponent = (if exponent % 2 = 0 then 1 else -1 : Int64).toInt := by
      have hbase : a.toInt = -1 := hminus ▸ rfl
      rw [hbase]
      split
      · next heven => exact (Nat.even_iff.mpr heven).neg_one_pow
      · next hodd => exact (Nat.odd_iff.mpr (Nat.mod_two_ne_zero.mp hodd)).neg_one_pow
    rw [if_pos hminus, hvalue, checked_toInt]
  rw [if_neg hminus]
  split
  · next hlarge =>
    have hmagnitude : 2 ≤ |a.toInt| := by
      have hne {b : Int64} (hb : a ≠ b) : a.toInt ≠ b.toInt := fun heq =>
        hb (Int64.toInt_inj.mp heq)
      have hzero : a.toInt ≠ 0 := hne fun heq => hsmall (.inl heq)
      have hone : a.toInt ≠ 1 := hne fun heq => hsmall (.inr heq)
      have hminusOne : a.toInt ≠ -1 := hne hminus
      rw [le_abs]
      omega
    exact (checked_eq_error_iff.mpr ⟨rfl, fitsInt64_pow_of_le hmagnitude hlarge⟩).symm
  · rfl

end Integer

/-! ## Operations -/

/-- The action does nothing to the machine.  It raises a division by zero where the operation is
undefined, and an overflow where it is limited or the number has more than 64 bits; in all other
cases it gives the number. -/
structure Gives (m : Machine) (x : Run Value) (undefined limited : Prop) (n : Int) : Prop where
  zeroDivision :
    x m = .error (.raised ⟨.zeroDivisionError, "integer division or modulo by zero"⟩) m ↔ undefined
  overflow : x m = .error (.raised ⟨.overflowError, "integer overflow"⟩) m ↔
    ¬undefined ∧ (limited ∨ Decimal.fitsInt64 n = false)
  exact (r : Int64) : x m = .ok (.int r) m ↔ ¬undefined ∧ ¬limited ∧ r.toInt = n

namespace Integer

variable {m : Machine} {x : Run Value} {undefined limited : Prop} {n : Int}

/-- How an action ends that takes its result from an operation on whole numbers. -/
def ending (m : Machine) : Except Fault Int64 → EStateM.Result Interrupt Machine Value
  | .ok r => .ok (.int r) m
  | .error f => .error (.raised f.exception) m

/-- An operation on whole numbers, run for its result. -/
theorem run_ofExcept (result : Except Fault Int64) (m : Machine) :
    (do return .constant (← Run.ofExcept (result.map .int)) : Run Value) m = ending m result := by
  cases result <;> rfl

/-- An operator on whole numbers ends as the operation does. -/
theorem run_binary (op : BinaryOp) (a b : Int64) {result : Except Fault Int64}
    (h : binary? op a b = some result) (m : Machine) :
    Run.binary op (.int a) (.int b) m = ending m result := by
  have harithmetic : arithmetic? op (.int a) (.int b) = some (result.map .int) := by
    rw [arithmetic?, h]
    rfl
  have hrun : Run.binary op (.int a) (.int b) m =
      (do return .constant (← Run.ofExcept (result.map .int)) : Run Value) m := by
    -- The heap is read for the sequences only, and the comparisons give no number.
    cases op <;> first
      | simp only [Run.binary, Run.arithmetic, harithmetic]; rfl
      | cases h
  rw [hrun]
  exact run_ofExcept result m

theorem ending_ne {f : Fault} {e : Exception} (h : f.exception ≠ e) :
    ending m (.error f) ≠ .error (.raised e) m :=
  fun heq => by
    injection heq with hinterrupt
    injection hinterrupt with hexception
    exact h hexception

theorem gives_of_undefined (hrun : x m = ending m (.error .integerZeroDivision)) (h : undefined) :
    Gives m x undefined limited n where
  zeroDivision := iff_of_true hrun h
  overflow := iff_of_false (hrun ▸ ending_ne (by decide)) fun hother => hother.1 h
  exact r := iff_of_false (by rw [hrun]; simp [ending]) fun hother => hother.1 h

theorem gives_of_limited (hrun : x m = ending m (.error .overflow)) (hdefined : ¬undefined)
    (h : limited) : Gives m x undefined limited n where
  zeroDivision := iff_of_false (hrun ▸ ending_ne (by decide)) hdefined
  overflow := iff_of_true hrun ⟨hdefined, .inl h⟩
  exact r := iff_of_false (by rw [hrun]; simp [ending]) fun hother => hother.2.1 h

/-- An action that checks the exact result gives it or raises an overflow. -/
theorem gives_of_checked (hrun : x m = ending m (checked n)) (hdefined : ¬undefined)
    (hfree : ¬limited) : Gives m x undefined limited n := by
  cases hresult : checked n with
  | ok r =>
    rw [hresult] at hrun
    obtain rfl := checked_eq_ok_iff.mp hresult
    exact {
      zeroDivision := iff_of_false (by rw [hrun]; simp [ending]) hdefined
      overflow := iff_of_false (by rw [hrun]; simp [ending])
        (by simp [hfree, fitsInt64_toInt])
      exact := fun r' => by
        rw [hrun]
        simp [ending, hdefined, hfree, Int64.toInt_inj, eq_comm] }
  | error f =>
    rw [hresult] at hrun
    obtain ⟨rfl, hlarge⟩ := checked_eq_error_iff.mp hresult
    exact {
      zeroDivision := iff_of_false (hrun ▸ ending_ne (by decide)) hdefined
      overflow := iff_of_true hrun ⟨hdefined, .inr hlarge⟩
      exact := fun r => iff_of_false (by rw [hrun]; simp [ending]) fun hother => by
        rw [← hother.2.2, fitsInt64_toInt] at hlarge
        exact Bool.noConfusion hlarge }

theorem gives_floorDiv (a b : Int64) (m : Machine) :
    Gives m (Run.binary .floorDiv (.int a) (.int b)) (b.toInt = 0) False
      ⌊(a.toInt : ℚ) / b.toInt⌋ := by
  have hrun := run_binary .floorDiv a b rfl m
  rw [floor_div]
  by_cases hzero : b = 0
  · rw [floorDiv, if_pos hzero] at hrun
    exact gives_of_undefined hrun (hzero ▸ rfl)
  · rw [floorDiv_eq_checked a hzero] at hrun
    exact gives_of_checked hrun (fun h => hzero (toInt_eq_zero_iff.mp h)) not_false

theorem gives_mod (a b : Int64) (m : Machine) :
    Gives m (Run.binary .mod (.int a) (.int b)) (b.toInt = 0) (a.toInt = -2 ^ 63 ∧ b.toInt = -1)
      (a.toInt - b.toInt * ⌊(a.toInt : ℚ) / b.toInt⌋) := by
  have hrun := run_binary .mod a b rfl m
  rw [sub_mul_floor_div]
  by_cases hzero : b = 0
  · rw [mod, if_pos hzero] at hrun
    exact gives_of_undefined hrun (hzero ▸ rfl)
  have hdefined : ¬b.toInt = 0 := fun h => hzero (toInt_eq_zero_iff.mp h)
  by_cases hcorner : a = Int64.minValue ∧ b = -1
  · rw [mod, if_neg hzero, checkedRem, if_pos (.inr hcorner)] at hrun
    exact gives_of_limited hrun hdefined ⟨hcorner.1 ▸ rfl, hcorner.2 ▸ rfl⟩
  · rw [mod_eq_checked hzero hcorner] at hrun
    refine gives_of_checked hrun hdefined fun hlimited => hcorner ⟨?_, ?_⟩
    · exact Int64.toInt_inj.mp hlimited.1
    · exact Int64.toInt_inj.mp hlimited.2

theorem gives_pow (a b : Int64) (hb : 0 ≤ b.toInt) (m : Machine) :
    Gives m (Run.binary .pow (.int a) (.int b)) False (2 ^ 32 ≤ b.toInt)
      (a.toInt ^ b.toInt.toNat) := by
  have hmax : maxExponent = 2 ^ 32 - 1 := rfl
  have hoperation : binary? .pow a b = some (pow a b.toInt.toNat) :=
    if_pos (Int64.le_iff_toInt_le.mpr (Int64.toInt_zero ▸ hb))
  have hrun := run_binary .pow a b hoperation m
  by_cases hlimited : maxExponent < b.toInt.toNat
  · rw [pow, if_pos hlimited] at hrun
    exact gives_of_limited hrun not_false (by omega)
  · rw [pow_eq_checked a (Nat.le_of_not_lt hlimited)] at hrun
    exact gives_of_checked hrun not_false (by omega)

/-- Quotient and remainder put the dividend together again, where both succeed. -/
theorem dividend_eq {a b q r : Int64}
    (hq : Run.binary .floorDiv (.int a) (.int b) m = .ok (.int q) m)
    (hr : Run.binary .mod (.int a) (.int b) m = .ok (.int r) m) :
    a.toInt = q.toInt * b.toInt + r.toInt ∧
      (r.toInt = 0 ∨ r.toInt.sign = b.toInt.sign) ∧ |r.toInt| < |b.toInt| := by
  obtain ⟨hne, -, hquotient⟩ := ((gives_floorDiv a b m).exact q).mp hq
  obtain ⟨-, -, hremainder⟩ := ((gives_mod a b m).exact r).mp hr
  refine ⟨by rw [hremainder, hquotient]; ring, ?_⟩
  rw [hremainder, sub_mul_floor_div]
  exact fmod_bounds a.toInt hne

/-- Every operation on whole numbers gives the exact result or raises an exception.  Besides the
results that have more than 64 bits, an overflow meets the remainder of the least number by minus
one and the powers whose exponent has more than 32 bits. -/
theorem arithmetic_is_exact_up_to_limits (a b : Int64) (m : Machine) :
    Gives m (Run.binary .add (.int a) (.int b)) False False (a.toInt + b.toInt) ∧
    Gives m (Run.binary .sub (.int a) (.int b)) False False (a.toInt - b.toInt) ∧
    Gives m (Run.binary .mul (.int a) (.int b)) False False (a.toInt * b.toInt) ∧
    Gives m (Run.binary .floorDiv (.int a) (.int b)) (b.toInt = 0) False
      ⌊(a.toInt : ℚ) / b.toInt⌋ ∧
    Gives m (Run.binary .mod (.int a) (.int b)) (b.toInt = 0) (a.toInt = -2 ^ 63 ∧ b.toInt = -1)
      (a.toInt - b.toInt * ⌊(a.toInt : ℚ) / b.toInt⌋) ∧
    (0 ≤ b.toInt → Gives m (Run.binary .pow (.int a) (.int b)) False (2 ^ 32 ≤ b.toInt)
      (a.toInt ^ b.toInt.toNat)) ∧
    Gives m (Run.unary .neg (.int a)) False False (-a.toInt) ∧
    Gives m (Builtin.callGlobal .abs [.int a]) False False |a.toInt| ∧
    ∀ q r, Run.binary .floorDiv (.int a) (.int b) m = .ok (.int q) m →
      Run.binary .mod (.int a) (.int b) m = .ok (.int r) m →
        a.toInt = q.toInt * b.toInt + r.toInt ∧
          (r.toInt = 0 ∨ r.toInt.sign = b.toInt.sign) ∧ |r.toInt| < |b.toInt| := by
  have hneg : Run.unary .neg (.int a) m = ending m (checked (-a.toInt)) := by
    change (do return .constant (← Run.ofExcept ((neg a).map .int)) : Run Value) m = _
    exact run_ofExcept _ m
  have habs : Builtin.callGlobal .abs [.int a] m = ending m (checked |a.toInt|) := by
    rw [← Int.natCast_natAbs]
    change (do return .int (← Run.ofExcept (abs a)) : Run Value) m = ending m (abs a)
    cases abs a <;> rfl
  exact ⟨gives_of_checked (run_binary .add a b rfl m) not_false not_false,
    gives_of_checked (run_binary .sub a b rfl m) not_false not_false,
    gives_of_checked (run_binary .mul a b rfl m) not_false not_false,
    gives_floorDiv a b m, gives_mod a b m, fun hb => gives_pow a b hb m,
    gives_of_checked hneg not_false not_false, gives_of_checked habs not_false not_false,
    fun _ _ hq hr => dividend_eq hq hr⟩

/-- Quotient and remainder round down, and a natural exponent is no limit to a small power. -/
theorem arithmetic_of_minus_seven_and_two :
    Run.binary .floorDiv (.int (-7)) (.int 2) {} = .ok (.int (-4)) {} ∧
      Run.binary .mod (.int (-7)) (.int 2) {} = .ok (.int 1) {} ∧
      (0 ≤ (2 : Int64).toInt ∧ Run.binary .pow (.int (-7)) (.int 2) {} = .ok (.int 49) {}) := by
  obtain ⟨-, -, -, hfloorDiv, hmod, hpow, -⟩ := arithmetic_is_exact_up_to_limits (-7) 2 {}
  have hquotient : ⌊((-7 : Int64).toInt : ℚ) / (2 : Int64).toInt⌋ = -4 := by
    rw [floor_div]
    decide
  have hnonneg : 0 ≤ (2 : Int64).toInt := by decide
  refine ⟨(hfloorDiv.exact _).mpr ⟨by decide, not_false, by rw [hquotient]; decide⟩,
    (hmod.exact _).mpr ⟨by decide, by decide, by rw [hquotient]; decide⟩, hnonneg,
    ((hpow hnonneg).exact _).mpr ⟨not_false, by decide, by decide⟩⟩

/-- The remainder of the least number by minus one and every power of one fit, and yet they raise an
overflow, the powers from the exponent `2 ^ 32` on. -/
theorem results_that_fit_overflow :
    (Run.binary .mod (.int Int64.minValue) (.int (-1)) {} =
        .error (.raised ⟨.overflowError, "integer overflow"⟩) {} ∧
      Decimal.fitsInt64 (Int64.minValue.toInt -
        (-1 : Int64).toInt * ⌊(Int64.minValue.toInt : ℚ) / (-1 : Int64).toInt⌋) = true) ∧
    Run.binary .pow (.int 1) (.int 4294967296) {} =
        .error (.raised ⟨.overflowError, "integer overflow"⟩) {} ∧
      Decimal.fitsInt64 ((1 : Int64).toInt ^ (4294967296 : Int64).toInt.toNat) = true := by
  refine ⟨⟨rfl, ?_⟩, rfl, ?_⟩
  · rw [sub_mul_floor_div]
    decide
  · rw [Int64.toInt_one, one_pow]
    decide

end Integer

end StagedScript
