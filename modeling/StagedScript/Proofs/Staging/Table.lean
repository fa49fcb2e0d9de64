import StagedScript.Proofs.Staging.Calls

/-!
# The table of results and the calls

Every call that was made ahead of time has its entry in the table.  The key of
the entry is that of the first call that was recorded there, and its value is
what the last one returned.
-/

namespace StagedScript.Staging

open Evaluation (ModuleSpec)

variable {m m' : Machine}

def Call.hashing (call : Call) : Hashing (ResultKey Value) :=
  ResultKey.hashing call.heap.hashing

/-- A call is recorded under a key of the table: it is found at that key, which equals its own and
has the same hash, and at none of those before it. -/
def Call.Finds (call : Call) (earlier : List (ResultKey Value)) (key : ResultKey Value) : Prop :=
  call.hashing.finds call.key key = true ∧ ∀ k ∈ earlier, call.hashing.finds call.key k = false

/-! ## Inserting -/

/-- A result is added at the end, or it takes the place of the first one where its key is found. -/
theorem Results.insert_cases {α : Type} (s : Hashing α) (key : ResultKey α) (value : α)
    (table : Results α) :
    (table.insert s key value = table ++ [(key, value)] ∧
      ∀ e ∈ table, (ResultKey.hashing s).finds key e.1 = false) ∨
    ∃ before k old after, table = before ++ (k, old) :: after ∧
      table.insert s key value = before ++ (k, value) :: after ∧
      (ResultKey.hashing s).finds key k = true ∧
      ∀ e ∈ before, (ResultKey.hashing s).finds key e.1 = false := by
  induction table with
  | nil => exact .inl ⟨rfl, by simp⟩
  | cons e table ih =>
    obtain ⟨k, old⟩ := e
    by_cases hk : (ResultKey.hashing s).finds key k = true
    · refine .inr ⟨[], k, old, table, rfl, ?_, hk, by simp⟩
      rw [Results.insert, if_pos hk, List.nil_append]
    · have hinsert : Results.insert s key value ((k, old) :: table) =
          (k, old) :: Results.insert s key value table := by
        rw [Results.insert, if_neg hk]
      have hk := eq_false_of_ne_true hk
      rcases ih with ⟨heq, hnone⟩ | ⟨before, k', old', after, rfl, heq, hk', hbefore⟩
      · refine .inl ⟨by rw [hinsert, heq, List.cons_append], ?_⟩
        rw [List.forall_mem_cons]
        exact ⟨hk, hnone⟩
      · refine .inr ⟨(k, old) :: before, k', old', after, rfl, ?_, hk', ?_⟩
        · rw [hinsert, heq, List.cons_append]
        · rw [List.forall_mem_cons]
          exact ⟨hk, hbefore⟩

theorem recorded_concat (calls : List Call) (call : Call) :
    recorded [] (calls ++ [call]) =
      (recorded [] calls).insertOn call.heap call.key call.value := by
  rw [recorded, List.foldl_concat, recorded]

theorem getElem?_concat_eq_some {α : Type} {xs : List α} {x y : α} {i : Nat}
    (h : (xs ++ [x])[i]? = some y) : xs[i]? = some y ∨ i = xs.length ∧ y = x := by
  rw [List.getElem?_append] at h
  split at h
  · exact .inl h
  · next hge =>
    rw [List.getElem?_singleton] at h
    split at h
    · exact .inr ⟨by omega, (Option.some.inj h).symm⟩
    · cases h

theorem getElem?_concat_ne_some {α : Type} {xs : List α} {x y : α} {i : Nat} (h : xs.length < i) :
    (xs ++ [x])[i]? ≠ some y := by
  intro hat
  have hlt : i < (xs ++ [x]).length := (List.getElem?_eq_some_iff.mp hat).1
  rw [List.length_append, List.length_singleton] at hlt
  exact absurd h (Nat.not_lt.mpr (Nat.le_of_lt_succ hlt))

theorem ResultKey.equal_of_finds {α : Type} {s : Hashing α} {a b : ResultKey α}
    (h : (ResultKey.hashing s).finds a b = true) : a.equal s.equal b = true :=
  (Bool.and_eq_true_iff.mp h).1

theorem ResultKey.function_eq_of_equal {α : Type} {same : α → α → Bool} {a b : ResultKey α}
    (h : a.equal same b = true) : a.function = b.function := by
  cases a <;> cases b <;> simp_all [ResultKey.equal, ResultKey.function]

/-- Every key of the table is that of a call, and its value is what a call returned that is the same
one or was found at this key. -/
theorem mem_recorded {calls : List Call} {e : ResultKey Value × Value}
    (he : e ∈ recorded [] calls) :
    ∃ first ∈ calls, ∃ last ∈ calls, e.1 = first.key ∧ e.2 = last.value ∧
      (last = first ∨ last.hashing.finds last.key first.key = true) := by
  induction calls using List.reverseRecOn generalizing e with
  | nil => simp [recorded] at he
  | append_singleton calls call ih =>
    have hold {e : ResultKey Value × Value} (he : e ∈ recorded [] calls) :
        ∃ first ∈ calls ++ [call], ∃ last ∈ calls ++ [call], e.1 = first.key ∧
          e.2 = last.value ∧
          (last = first ∨ last.hashing.finds last.key first.key = true) := by
      obtain ⟨first, hfirst, last, hlast, h⟩ := ih he
      exact ⟨first, List.mem_append_left _ hfirst, last, List.mem_append_left _ hlast, h⟩
    rw [recorded_concat, Results.insertOn] at he
    rcases Results.insert_cases call.heap.hashing call.key call.value (recorded [] calls) with
      ⟨heq, -⟩ | ⟨before, k, old, after, htable, heq, hk, -⟩
    · rw [heq, List.mem_append] at he
      rcases he with he | he
      · exact hold he
      · obtain rfl := List.mem_singleton.mp he
        exact ⟨call, by simp, call, by simp, rfl, rfl, .inl rfl⟩
    · rw [heq, List.mem_append, List.mem_cons] at he
      rcases he with he | rfl | he
      · exact hold (by simp [htable, he])
      · obtain ⟨first, hfirst, -, -, rfl, -, -⟩ := hold (e := (k, old)) (by simp [htable])
        exact ⟨first, hfirst, call, by simp, rfl, rfl, .inr hk⟩
      · exact hold (by simp [htable, he])

/-! ## The entry of a call -/

/-- The call at place `i` has its entry in the table: the call at place `j` was the first one
that was recorded there, and the call at place `q` the last one. -/
structure EntryOf (table : Results Value) (calls : List Call) (i j q : Nat)
    (call first last : Call) : Prop where
  first_le : j ≤ i
  le_last : i ≤ q
  first_at : calls[j]? = some first
  last_at : calls[q]? = some last
  entry : ∃ before after, table = before ++ (first.key, last.value) :: after ∧
    (j = i ∨ call.Finds (before.map (·.1)) first.key) ∧
    (q = i ∨ last.Finds (before.map (·.1)) first.key) ∧
    ∀ (p : Nat) (later : Call), q < p → calls[p]? = some later →
      ¬later.Finds (before.map (·.1)) first.key

/-- A call that is recorded next leaves the entry of an earlier call as it is or becomes the last
one that was recorded there. -/
theorem EntryOf.concat {calls : List Call} {i j q : Nat} {call first last : Call}
    (h : EntryOf (recorded [] calls) calls i j q call first last) (next : Call) :
    ∃ q' last', EntryOf (recorded [] (calls ++ [next])) (calls ++ [next]) i j q' call first
      last' := by
  obtain ⟨hji, hiq, hj, hq, before, after, htable, hfirst, hlast, hlater⟩ := h
  have hjlt : j < calls.length := (List.getElem?_eq_some_iff.mp hj).1
  have hqlt : q < calls.length := (List.getElem?_eq_some_iff.mp hq).1
  have hj' : (calls ++ [next])[j]? = some first := by rw [List.getElem?_append_left hjlt, hj]
  have hq' : (calls ++ [next])[q]? = some last := by rw [List.getElem?_append_left hqlt, hq]
  -- The entry stays as it is unless the new call finds it.
  have keep (before' after' : Results Value) (hkeys : before'.map (·.1) = before.map (·.1))
      (hnew : recorded [] (calls ++ [next]) = before' ++ (first.key, last.value) :: after')
      (hnot : ¬next.Finds (before.map (·.1)) first.key) :
      EntryOf (recorded [] (calls ++ [next])) (calls ++ [next]) i j q call first last := by
    refine ⟨hji, hiq, hj', hq', before', after', hnew, hkeys ▸ hfirst, hkeys ▸ hlast, ?_⟩
    rintro p later hp hat
    rw [hkeys]
    rcases getElem?_concat_eq_some hat with hat | ⟨-, rfl⟩
    · exact hlater p later hp hat
    · exact hnot
  -- The new call is the last one if it finds the entry.
  have become {after' : Results Value} (hmeets : next.hashing.finds next.key first.key = true)
      (hbefore : ∀ e ∈ before, next.hashing.finds next.key e.1 = false)
      (hnew : recorded [] (calls ++ [next]) = before ++ (first.key, next.value) :: after') :
      EntryOf (recorded [] (calls ++ [next])) (calls ++ [next]) i j calls.length call first
        next := by
    refine ⟨hji, by omega, hj', by simp, before, after', hnew, hfirst, .inr ⟨hmeets, ?_⟩, ?_⟩
    · intro key hmem
      obtain ⟨e, he, rfl⟩ := List.mem_map.mp hmem
      exact hbefore e he
    · intro p later hp hat
      exact absurd hat (getElem?_concat_ne_some hp)
  have hrecord := recorded_concat calls next
  rw [Results.insertOn] at hrecord
  rcases Results.insert_cases next.heap.hashing next.key next.value (recorded [] calls) with
    ⟨heq, hnone⟩ | ⟨front, k, old, back, hsplit, heq, hk, hfront⟩
  · refine ⟨q, last, keep before (after ++ [(next.key, next.value)]) rfl
      ?_ ?_⟩
    · rw [hrecord, heq, htable]
      simp
    · rintro ⟨hmeets, -⟩
      exact Bool.noConfusion (hmeets.symm.trans (hnone (first.key, last.value) (by simp [htable])))
  · rw [heq] at hrecord
    rw [htable] at hsplit
    rcases List.append_eq_append_iff.mp hsplit with
      ⟨mid, hfrontEq, hrest⟩ | ⟨mid, hbeforeEq, hrest⟩
    · cases mid with
      | nil =>
        simp only [List.append_nil, List.nil_append, List.cons.injEq, Prod.mk.injEq]
          at hfrontEq hrest
        obtain ⟨⟨rfl, -⟩, rfl⟩ := hrest
        subst hfrontEq
        exact ⟨calls.length, next, become hk hfront hrecord⟩
      | cons e mid =>
        -- The new call finds an entry after this one.
        simp only [List.cons_append, List.cons.injEq] at hrest
        obtain ⟨rfl, rfl⟩ := hrest
        subst hfrontEq
        refine ⟨q, last, keep before (mid ++ (k, next.value) :: back) rfl
          ?_ ?_⟩
        · rw [hrecord]
          simp
        · rintro ⟨hmeets, -⟩
          exact Bool.noConfusion (hmeets.symm.trans (hfront (first.key, last.value) (by simp)))
    · cases mid with
      | nil =>
        simp only [List.append_nil, List.nil_append, List.cons.injEq, Prod.mk.injEq]
          at hbeforeEq hrest
        obtain ⟨⟨rfl, -⟩, rfl⟩ := hrest
        subst hbeforeEq
        exact ⟨calls.length, next, become hk hfront hrecord⟩
      | cons e mid =>
        -- The new call finds an entry before this one.
        simp only [List.cons_append, List.cons.injEq] at hrest
        obtain ⟨rfl, rfl⟩ := hrest
        subst hbeforeEq
        refine ⟨q, last, keep (front ++ (k, next.value) :: mid) after
          (by simp) ?_ ?_⟩
        · rw [hrecord]
          simp
        · rintro ⟨-, hothers⟩
          exact Bool.noConfusion (hk.symm.trans (hothers k (by simp)))

/-- Every call has its entry in the table. -/
theorem entryOf_recorded (calls : List Call) {i : Nat} {call : Call}
    (hi : calls[i]? = some call) :
    ∃ j q first last, EntryOf (recorded [] calls) calls i j q call first last := by
  induction calls using List.reverseRecOn generalizing i call with
  | nil => simp at hi
  | append_singleton calls next ih =>
    rcases getElem?_concat_eq_some hi with hi | ⟨rfl, rfl⟩
    · obtain ⟨j, q, first, last, hentry⟩ := ih hi
      obtain ⟨q', last', hentry'⟩ := hentry.concat next
      exact ⟨j, q', first, last', hentry'⟩
    · have hrecord := recorded_concat calls call
      rw [Results.insertOn] at hrecord
      rcases Results.insert_cases call.heap.hashing call.key call.value (recorded [] calls) with
        ⟨heq, -⟩ | ⟨before, k, old, after, htable, heq, hk, hbefore⟩
      · exact ⟨calls.length, calls.length, call, call, Nat.le_refl _, Nat.le_refl _, hi, hi,
          recorded [] calls, [], hrecord.trans heq, .inl rfl, .inl rfl,
          fun p later hp hat => absurd hat (getElem?_concat_ne_some hp)⟩
      · have hmem : (k, old) ∈ recorded [] calls := by
          rw [htable]
          simp
        obtain ⟨first, hfirst, -, -, hkey, -, -⟩ := mem_recorded hmem
        obtain ⟨j, hj⟩ := List.mem_iff_getElem?.mp hfirst
        obtain rfl : k = first.key := hkey
        have hjlt : j < calls.length := (List.getElem?_eq_some_iff.mp hj).1
        have hfinds : call.Finds (before.map (·.1)) first.key := by
          refine ⟨hk, fun key hmem => ?_⟩
          obtain ⟨e, he, rfl⟩ := List.mem_map.mp hmem
          exact hbefore e he
        exact ⟨j, calls.length, first, call, Nat.le_of_lt hjlt, Nat.le_refl _,
          by rw [List.getElem?_append_left hjlt, hj], hi, before, after, hrecord.trans heq,
          .inr hfinds, .inl rfl, fun p later hp hat => absurd hat (getElem?_concat_ne_some hp)⟩

end StagedScript.Staging
