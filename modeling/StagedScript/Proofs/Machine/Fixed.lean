import StagedScript.Proofs.Machine.Sound
import StagedScript.Value.Comparison

/-!
# Values that never change

A value without a list, a dictionary or a waiting marker inside of it looks the
same on every later heap, and so does whatever equals it.
-/

namespace StagedScript

variable {guard : Guard}

namespace Heap

/-- The value holds nothing that can be changed. -/
inductive Fixed (h : Heap) : Value → Prop
  | constant (c : Syntax.Constant) : h.Fixed (.constant c)
  | entity (e : Entity) : h.Fixed (.entity e)
  | method (receiver : Value) (m : Method) : h.Fixed (.method receiver m)
  | tuple (r : Ref .tuple) (items : ∀ v ∈ h.tuple r, h.Fixed v) : h.Fixed (.tuple r)

variable {h h' : Heap}

theorem tuples_le_containers (h : Heap) : h.tuples.size ≤ h.containers := by
  unfold containers
  omega

/-- On a later heap a fixed value has the contents that it had, to any depth that reaches its
end. -/
theorem Fixed.viewWithin_eq (hs : h.Sound guard) (hg : h.Grows guard h') {v : Value}
    (hv : h.Fixed v) {n : Extent} (hn : v.Within guard n) (hle : n.tuples ≤ h.tuples.size)
    {k k' : Nat} (hk : n.tuples ≤ k) (hk' : n.tuples ≤ k') :
    h'.viewWithin k' v = h.viewWithin k v := by
  induction hv generalizing n k k' with
  | constant c => cases k <;> cases k' <;> rfl
  | entity e => cases k <;> cases k' <;> rfl
  | method receiver m => cases k <;> cases k' <;> rfl
  | tuple r items ih =>
    have hr : r.index < n.tuples := hn
    obtain ⟨k, rfl⟩ := Nat.exists_eq_add_one_of_ne_zero (show k ≠ 0 by omega)
    obtain ⟨k', rfl⟩ := Nat.exists_eq_add_one_of_ne_zero (show k' ≠ 0 by omega)
    simp only [viewWithin, hg.tuple_eq (Nat.lt_of_lt_of_le hr hle)]
    congr 1
    refine List.map_congr_left fun v hv => ?_
    have hmem := Array.mem_toList_iff.mp hv
    obtain ⟨hwithin, hlt⟩ := hs.within_tuple hmem
    exact ih v hmem hwithin (Nat.le_of_lt hlt) (by change r.index ≤ k; omega)
      (by change r.index ≤ k'; omega)

/-- A fixed value looks the same on every later heap. -/
theorem Fixed.view_eq (hs : h.Sound guard) (hg : h.Grows guard h') {v : Value}
    (hv : h.Fixed v) (hn : v.Within guard h.extent) : h'.view v = h.view v :=
  hv.viewWithin_eq hs hg hn (Nat.le_refl _) h.tuples_le_containers
    (Nat.le_trans hg.extent.tuples h'.tuples_le_containers)

/-- A fixed value stays one. -/
theorem Fixed.mono (hs : h.Sound guard) (hg : h.Grows guard h') {v : Value}
    (hv : h.Fixed v) (hn : v.Within guard h.extent) : h'.Fixed v := by
  induction hv with
  | constant c => exact .constant c
  | entity e => exact .entity e
  | method receiver m => exact .method receiver m
  | tuple r items ih =>
    refine .tuple r fun v hv => ?_
    rw [hg.tuple_eq hn] at hv
    exact ih v hv (hs.tuple_within hv)

/-- On a later heap a value writes what it wrote, to any depth that reaches the end of its
tuples. -/
theorem hashWritesWithin_of_grows (hs : h.Sound guard) (hg : h.Grows guard h') {v : Value}
    {n : Extent} (hn : v.Within guard n) (hle : n.tuples ≤ h.tuples.size) {k k' : Nat}
    (hk : n.tuples ≤ k) (hk' : n.tuples ≤ k') :
    h'.hashWritesWithin k' v = h.hashWritesWithin k v := by
  induction k generalizing n k' v with
  | zero =>
    cases v with
    | tuple r => exact absurd (Nat.lt_of_lt_of_le hn hk) (Nat.not_lt_zero _)
    | _ => cases k' <;> rfl
  | succ k ih =>
    cases v with
    | tuple r =>
      have hr : r.index < n.tuples := hn
      obtain ⟨k', rfl⟩ := Nat.exists_eq_add_one_of_ne_zero (show k' ≠ 0 by omega)
      simp only [hashWritesWithin, hg.tuple_eq (Nat.lt_of_lt_of_le hr hle)]
      congr 1
      refine List.flatMap_congr fun v hv => ?_
      obtain ⟨hwithin, hlt⟩ := hs.within_tuple (Array.mem_toList_iff.mp hv)
      exact ih hwithin (Nat.le_of_lt hlt) (by change r.index ≤ k; omega)
        (by change r.index ≤ k'; omega)
    | _ => cases k' <;> rfl

/-- A value is hashed alike on every later heap: only tuples are opened for it. -/
theorem writes_of_grows (hs : h.Sound guard) (hg : h.Grows guard h') {v : Value}
    (hn : v.Within guard h.extent) : h'.hashing.writes v = h.hashing.writes v :=
  hashWritesWithin_of_grows hs hg hn (Nat.le_refl _) h.tuples_le_containers
    (Nat.le_trans hg.extent.tuples h'.tuples_le_containers)

theorem isEqv_of_sameItems {as bs : Array Value} {equal : Value → Value → Bool}
    (hsame : sameItems equal as bs = true) {b : Value} (hb : b ∈ bs) :
    ∃ a ∈ as, equal a b = true := by
  rw [sameItems_eq, List.isEqv_eq_decide] at hsame
  split at hsame
  · next hlen =>
    obtain ⟨i, hi, rfl⟩ := Array.mem_iff_getElem.mp hb
    have hall := of_decide_eq_true hsame i (by simpa [hlen] using hi)
    exact ⟨_, Array.getElem_mem _, by simpa using hall⟩
  · cases hsame

/-- What equals a fixed value is fixed. -/
theorem Fixed.of_equalWithin (hs : h.Sound guard) {a b : Value} (ha : h.Fixed a) {n : Extent}
    {k : Nat} (hn : a.Within guard n) (hk : n.tuples ≤ k) (heq : h.equalWithin k a b = true) :
    h.Fixed b := by
  induction ha generalizing b n k with
  | constant c =>
    cases b <;> cases k <;> simp only [equalWithin, Bool.false_eq_true] at heq <;>
      exact .constant _
  | entity e =>
    cases b <;> cases k <;> simp only [equalWithin, Bool.false_eq_true] at heq <;>
      exact .entity _
  | method receiver m => cases b <;> cases k <;> simp [equalWithin] at heq
  | tuple r items ih =>
    have hr : r.index < n.tuples := hn
    obtain ⟨k, rfl⟩ := Nat.exists_eq_add_one_of_ne_zero (show k ≠ 0 by omega)
    cases b with
    | tuple s =>
      simp only [equalWithin, Bool.or_eq_true, beq_iff_eq] at heq
      rcases heq with rfl | hsame
      · exact .tuple r items
      · refine .tuple s fun v hv => ?_
        obtain ⟨a, ha, heqv⟩ := isEqv_of_sameItems hsame hv
        exact ih a ha (hs.within_tuple ha).1 (by change r.index ≤ k; omega) heqv
    | _ => simp [equalWithin] at heq

theorem Fixed.of_equal (hs : h.Sound guard) {a b : Value} (ha : h.Fixed a)
    (hn : a.Within guard h.extent) (heq : h.equal a b = true) : h.Fixed b :=
  ha.of_equalWithin hs hn h.tuples_le_containers heq

end Heap

end StagedScript
