import StagedScript.Proofs.Value.Arithmetic
import StagedScript.Proofs.Value.Settled

/-!
# Progressions

The numbers from a start up to an end are collected one by one.  What is
collected are the exact numbers of the progression, in arithmetic without
bounds, and all of them that come before the end: where the next number has more
than 64 bits, it lies beyond the end like all numbers after it.
-/

namespace StagedScript

namespace Builtin

/-- A number comes before the end of a progression, in the direction of its step. -/
def ComesBefore (stop step n : Int) : Prop :=
  0 < step ∧ n < stop ∨ step < 0 ∧ stop < n

theorem comesBefore_iff {stop step n : Int64} :
    comesBefore stop step n = true ↔ ComesBefore stop.toInt step.toInt n.toInt := by
  simp [comesBefore, ComesBefore, Int64.lt_iff_toInt_lt]

/-- What stands in front of a number of the progression is not closer to the end. -/
theorem ComesBefore.earlier {start stop step : Int} {i j : Nat} (hij : i ≤ j)
    (h : ComesBefore stop step (start + j * step)) : ComesBefore stop step (start + i * step) := by
  have hle : (i : Int) ≤ j := Int.ofNat_le.mpr hij
  rcases h with ⟨hpos, hlt⟩ | ⟨hneg, hlt⟩
  · have hmul : i * step ≤ j * step := mul_le_mul_of_nonneg_right hle hpos.le
    exact .inl ⟨hpos, by omega⟩
  · have hmul : j * step ≤ i * step := mul_le_mul_of_nonpos_right hle hneg.le
    exact .inr ⟨hneg, by omega⟩

/-- A sum of more than 64 bits lies beyond every end of 64 bits. -/
theorem not_comesBefore_of_overflow (stop : Int64) {step n : Int64} {f : Fault}
    (h : Integer.checked (n.toInt + step.toInt) = .error f) :
    ¬ ComesBefore stop.toInt step.toInt (n.toInt + step.toInt) := by
  obtain ⟨-, hfits⟩ := Integer.checked_eq_error_iff.mp h
  rw [Bool.eq_false_iff, ne_eq, Integer.fitsInt64_iff] at hfits
  have hn := n.le_toInt
  have hn' := n.toInt_lt
  have hstop := stop.le_toInt
  have hstop' := stop.toInt_lt
  rintro (⟨hpos, hlt⟩ | ⟨hneg, hlt⟩)
  · omega
  · omega

/-- The items are the first numbers of a progression, and they come before its end. -/
structure Collected (start stop step : Int) (items : Array Int64) : Prop where
  exact (i : Nat) (h : i < items.size) : items[i].toInt = start + i * step
  before (i : Nat) (h : i < items.size) : ComesBefore stop step (start + i * step)

theorem Collected.empty (start stop step : Int) : Collected start stop step #[] where
  exact _ h := absurd h (Nat.not_lt_zero _)
  before _ h := absurd h (Nat.not_lt_zero _)

theorem Collected.push {start stop step : Int} {items : Array Int64} {n : Int64}
    (h : Collected start stop step items) (hn : n.toInt = start + items.size * step)
    (hbefore : ComesBefore stop step n.toInt) : Collected start stop step (items.push n) where
  exact i hi := by
    rw [Array.getElem_push]
    split
    · next hlt => exact h.exact i hlt
    · next hge =>
      have hlast : i = items.size := by
        rw [Array.size_push] at hi
        omega
      rw [hn, hlast]
  before i hi := by
    rw [Array.size_push] at hi
    by_cases hlt : i < items.size
    · exact h.before i hlt
    · have hlast : i = items.size := by omega
      rw [hlast, ← hn]
      exact hbefore

/-- Collecting goes on until the next number is not before the end. -/
theorem addProgression_collected {start : Int} {stop step n : Int64} {items : Array Int64}
    (h : Collected start stop.toInt step.toInt items)
    (hn : n.toInt = start + items.size * step.toInt) :
    Collected start stop.toInt step.toInt (addProgression stop step n items) ∧
      ¬ ComesBefore stop.toInt step.toInt
        (start + (addProgression stop step n items).size * step.toInt) := by
  have hsum {n : Int64} {items : Array Int64} (hn : n.toInt = start + items.size * step.toInt) :
      n.toInt + step.toInt = start + (items.push n).size * step.toInt := by
    rw [hn, Array.size_push]
    push_cast
    ring
  -- The invariant is that the items are collected and `n` is the number that follows them.
  fun_induction addProgression stop step n items with
  | case1 n items hbefore next hnext ih =>
    apply ih (h.push hn (comesBefore_iff.mp hbefore))
    rw [Integer.toInt_of_checked hnext, hsum hn]
  | case2 n items hbefore f hnext =>
    -- The loop is left early here, but the number that it misses is not wanted either.
    have hpast := not_comesBefore_of_overflow stop hnext
    rw [hsum hn] at hpast
    exact ⟨h.push hn (comesBefore_iff.mp hbefore), hpast⟩
  | case3 n items hbefore =>
    rw [comesBefore_iff, hn] at hbefore
    exact ⟨h, hbefore⟩

/-- The items are the numbers `start`, `start + step`, `start + 2 * step` and so on in arithmetic
without bounds, and they are all that come before `stop`. -/
structure IsProgression (start stop step : Int) (items : Array Int64) : Prop where
  exact (i : Nat) (h : i < items.size) : items[i].toInt = start + i * step
  complete (i : Nat) : i < items.size ↔ ComesBefore stop step (start + i * step)

theorem isProgression_range (start stop step : Int64) :
    IsProgression start.toInt stop.toInt step.toInt (range start stop step) := by
  obtain ⟨hcollected, hpast⟩ :=
    addProgression_collected (n := start) (.empty start.toInt stop.toInt step.toInt) (by simp)
  refine ⟨hcollected.exact, fun i => ⟨hcollected.before i, fun hbefore => ?_⟩⟩
  by_contra hge
  exact hpast (hbefore.earlier (Nat.le_of_not_lt hge))

/-- The arguments ask for the numbers from `start` to `stop` by `step`.  The step is one if there is
none, and the start is zero. -/
inductive Asks : List Value → Int64 → Int64 → Int64 → Prop
  | stop (stop : Int64) : Asks [.int stop] 0 stop 1
  | bounds (start stop : Int64) : Asks [.int start, .int stop] start stop 1
  | step (start stop step : Int64) : Asks [.int start, .int stop, .int step] start stop step

variable {args : List Value} {start stop step : Int64}

theorem callGlobal_range (hargs : Asks args start stop step) (hstep : step ≠ 0) (m : Machine) :
    callGlobal .range args m =
      .ok (.list (m.heap.addList ((range start stop step).map Value.int)).1)
        { m with heap := (m.heap.addList ((range start stop step).map Value.int)).2 } := by
  have hgo : callGlobal .range args m = rangeOf.go start stop step m := by
    cases hargs with
    | stop => rfl
    | bounds => rfl
    | step => rfl
  rw [hgo, rangeOf.go, if_neg hstep]
  rfl

/-- A call that asks for the numbers from a start to an end by a step other than zero gives a new
list of exactly the numbers of this progression that come before the end. -/
theorem range_is_exact_progression (hargs : Asks args start stop step) (hstep : step ≠ 0)
    (m : Machine) : ∃ items, IsProgression start.toInt stop.toInt step.toInt items ∧
      ∃ r m', callGlobal .range args m = .ok (.list r) m' ∧
        m'.heap.list r = items.map Value.int ∧ m.heap.Extends m'.heap := by
  refine ⟨range start stop step, isProgression_range start stop step, ?_⟩
  exact ⟨_, _, callGlobal_range hargs hstep m, m.heap.list_addList _, .addList _ _⟩

/-- The second number would have more than 64 bits, so there is only the first. -/
theorem range_is_exact_progression_overflow :
    Asks [.int 9223372036854775806, .int 9223372036854775807, .int 5]
        9223372036854775806 9223372036854775807 5 ∧ (5 : Int64) ≠ 0 ∧
      ∃ r m', callGlobal .range
          [.int 9223372036854775806, .int 9223372036854775807, .int 5] {} = .ok (.list r) m' ∧
        m'.heap.list r = #[.int 9223372036854775806] := by
  have hargs : Asks _ _ _ _ := .step 9223372036854775806 9223372036854775807 5
  obtain ⟨items, hitems, r, m', hrun, hlist, -⟩ :=
    range_is_exact_progression hargs (by decide) {}
  refine ⟨hargs, by decide, r, m', hrun, ?_⟩
  have hfirst : 0 < items.size := (hitems.complete 0).mpr (.inl (by decide))
  have hsecond : ¬ 1 < items.size := by
    rw [hitems.complete 1]
    unfold ComesBefore
    decide
  obtain ⟨n, rfl⟩ := Array.size_eq_one_iff.mp (show items.size = 1 by omega)
  have hn : n = 9223372036854775806 := Int64.toInt_inj.mp (hitems.exact 0 hfirst)
  rw [hlist, hn, List.map_toArray, List.map_singleton]

end Builtin

end StagedScript
