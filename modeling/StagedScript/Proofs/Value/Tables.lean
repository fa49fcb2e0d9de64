import StagedScript.Proofs.Staging.Table
import StagedScript.Proofs.Value.Equivalence
import StagedScript.Rewriting.Annotation

/-!
# Tables keep equal keys together

A table finds a key where an equal one with the same hash is.  Since equal composed
values write the same, dictionaries, literal sets and tables of results find a
composed key exactly where an equal one is, whatever the hash function, and no two of
their keys are equal.
-/

namespace StagedScript

open Staging (ArgKey ResultKey Results)
open Syntax (Constant)

namespace Heap

variable {h : Heap}

def ComposedKey (h : Heap) (key : ResultKey Value) : Prop :=
  ∀ args, key.args? = some args → ∀ v ∈ args.values, h.Composed v

def resultHashing (h : Heap) : Hashing (ResultKey Value) :=
  ResultKey.hashing h.hashing

/-- Equal arguments of a call write the same if they are composed. -/
theorem argWrites_of_equal (h : Heap) {args others : ArgKey Value}
    (hargs : ∀ v ∈ args.values, h.Composed v) (hothers : ∀ v ∈ others.values, h.Composed v)
    (hequal : args.equal h.equal others = true) :
    args.hashWrites h.hashing.writes = others.hashWrites h.hashing.writes := by
  cases args with
  | single a =>
    cases others with
    | tuple bs => simp [ArgKey.equal] at hequal
    | single b =>
      exact congrArg (HashWrite.kind 0 :: ·) (h.agreesOn_hashing a b
        (hargs a List.mem_cons_self) (hothers b List.mem_cons_self) hequal)
  | tuple as =>
    cases others with
    | single b => simp [ArgKey.equal] at hequal
    | tuple bs =>
      have hsame : sameItems h.equal as.toArray bs.toArray = true :=
        (sameItems_eq _ _ _).trans hequal
      have hflat := flatMap_eq_of_sameItems (f := h.hashing.writes) hsame fun a ha b hb =>
        h.agreesOn_hashing a b (hargs a (List.mem_toArray.mp ha))
          (hothers b (List.mem_toArray.mp hb))
      have hlength : as.length = bs.length := (sameItems_iff.mp hsame).1
      rw [ArgKey.hashWrites, ArgKey.hashWrites, hlength]
      exact congrArg (HashWrite.kind 1 :: .length bs.length :: ·) hflat

/-- Equal keys of results write the same if their arguments are composed. -/
theorem agreesOn_resultHashing (h : Heap) : h.resultHashing.AgreesOn h.ComposedKey := by
  intro key other hkey hother hequal
  change key.equal h.equal other = true at hequal
  change key.hashWrites h.hashing.writes = other.hashWrites h.hashing.writes
  cases key with
  | whole f =>
    cases other with
    | whole g => rw [eq_of_beq hequal]
    | variant g others => simp [ResultKey.equal] at hequal
  | variant f args =>
    cases other with
    | whole g => simp [ResultKey.equal] at hequal
    | variant g others =>
      obtain ⟨hname, hargs⟩ := Bool.and_eq_true_iff.mp hequal
      rw [ResultKey.hashWrites, ResultKey.hashWrites, eq_of_beq hname,
        h.argWrites_of_equal (hkey args rfl) (hother others rfl) hargs]

end Heap

/-! ## Adding keys -/

namespace Hashing

variable {κ : Type} {s : Hashing κ} {p : κ → Prop} {keys : List κ} {key : κ}

/-- No key equals a key in front of it. -/
def Apart (s : Hashing κ) (keys : List κ) : Prop :=
  keys.Pairwise fun k k' => s.equal k' k = false

/-- A key that is added leaves the keys apart. -/
theorem Apart.insert (hs : s.AgreesOn p) (hkeys : ∀ k ∈ keys, p k) (hkey : p key)
    (hapart : s.Apart keys) : s.Apart (s.insert keys key) := by
  unfold Hashing.insert
  split
  · exact hapart
  · next hnone =>
    refine List.pairwise_append.mpr ⟨hapart, List.pairwise_singleton _ _, ?_⟩
    intro k hk k' hk'
    rw [List.mem_singleton.mp hk', ← hs.finds_eq hkey (hkeys k hk), Bool.eq_false_iff]
    exact fun hfinds => hnone (List.any_eq_true.mpr ⟨k, hk, hfinds⟩)

end Hashing

namespace Heap

variable {h : Heap}

/-- The keys of a dictionary are those of a table. -/
theorem keys_insertEntry (h : Heap) (key value : Value) (entries : Array (Value × Value)) :
    (h.insertEntry key value entries).toList.map Prod.fst =
      h.hashing.insert (entries.toList.map Prod.fst) key := by
  have hany : (entries.toList.map Prod.fst).any (h.hashing.finds key) =
      (h.keyIndex? key entries).isSome := by
    rw [keyIndex?, Array.findIdx?_isSome, List.any_map, Array.any_toList]
    rfl
  unfold Hashing.insert insertEntry
  rw [hany]
  cases h.keyIndex? key entries with
  | none => simp
  | some i =>
    refine List.ext_getElem? fun j => ?_
    by_cases hij : i = j <;> simp [hij, Function.comp_def]

/-- The values of a literal set are the keys of a table. -/
theorem insert_view (h : Heap) (set : List Value) (v : Value) :
    (Datum.hashing h.digest).insert (set.map h.view) (h.view v) =
      (h.hashing.insert set v).map h.view := by
  have hany : (set.map h.view).any ((Datum.hashing h.digest).finds (h.view v)) =
      set.any (h.hashing.finds v) := by
    rw [h.hashing_eq, List.any_map]
    rfl
  unfold Hashing.insert
  rw [hany]
  split
  · rfl
  · rw [List.map_append]
    rfl

/-- The keys of the results are those of a table. -/
theorem keys_insertOn (h : Heap) (table : Results Value) (key : ResultKey Value) (value : Value) :
    (table.insertOn h key value).map Prod.fst =
      h.resultHashing.insert (table.map Prod.fst) key := by
  unfold Results.insertOn Hashing.insert
  rcases Results.insert_cases h.hashing key value table with
    ⟨hinsert, hnone⟩ | ⟨before, k, old, after, rfl, hinsert, hfinds, -⟩
  · rw [hinsert, List.map_append, if_neg]
    · rfl
    · intro hany
      obtain ⟨k, hk, hfinds⟩ := List.any_eq_true.mp hany
      obtain ⟨e, he, rfl⟩ := List.mem_map.mp hk
      exact Bool.noConfusion (hfinds.symm.trans (hnone e he))
  · rw [hinsert, if_pos]
    · simp
    · exact List.any_eq_true.mpr ⟨k, by simp, hfinds⟩

/-- The tables of a program find a key exactly where an equal one is, and no two of their keys are
equal. -/
structure KeepsKeysApart (h : Heap) : Prop where
  /-- Finding a key. -/
  finds : ∀ a b, h.Composed a → h.Composed b → h.hashing.finds a b = h.equal a b
  /-- Comparing dictionaries. -/
  compare : ∀ r s, h.Composed (.dict r) → h.Composed (.dict s) →
    h.equal (.dict r) (.dict s) = (r == s || h.hashing.sameEntries (h.dict r) (h.dict s))
  /-- Adding to a dictionary. -/
  dict : ∀ (entries : Array (Value × Value)) (key value : Value),
    (∀ e ∈ entries, h.Composed e.1) → h.Composed key → h.DistinctKeys entries →
      h.DistinctKeys (h.insertEntry key value entries)
  /-- Adding to a literal set. -/
  literals : ∀ (set : List Value) (v : Value), (∀ w ∈ set, h.Composed w) → h.Composed v →
    (Datum.hashing h.digest).Apart (set.map h.view) →
      (Datum.hashing h.digest).Apart ((Datum.hashing h.digest).insert (set.map h.view) (h.view v))
  /-- Adding to the results. -/
  results : ∀ (table : Results Value) (key : ResultKey Value) (value : Value),
    (∀ e ∈ table, h.ComposedKey e.1) → h.ComposedKey key →
      h.resultHashing.Apart (table.map Prod.fst) →
        h.resultHashing.Apart ((table.insertOn h key value).map Prod.fst)

theorem keepsKeysApart (h : Heap) : h.KeepsKeysApart where
  finds _ _ ha hb := h.agreesOn_hashing.finds_eq ha hb
  compare _ _ hr hs := equal_dict hr hs
  dict entries key value hentries hkey hdistinct := by
    have hkeys : ∀ k ∈ entries.toList.map Prod.fst, h.Composed k :=
      List.forall_mem_map.mpr fun e he => hentries e (Array.mem_toList_iff.mp he)
    have hapart : h.hashing.Apart (entries.toList.map Prod.fst) :=
      List.pairwise_map.mpr hdistinct
    have hinsert := hapart.insert h.agreesOn_hashing hkeys hkey
    rw [← keys_insertEntry h key value] at hinsert
    exact List.pairwise_map.mp hinsert
  literals set v hset hv hapart := by
    have hview (keys : List Value) : (Datum.hashing h.digest).Apart (keys.map h.view) ↔
        h.hashing.Apart keys := by
      rw [h.hashing_eq]
      exact List.pairwise_map
    rw [insert_view, hview]
    exact ((hview set).mp hapart).insert h.agreesOn_hashing hset hv
  results table key value htable hkey hapart := by
    rw [keys_insertOn]
    exact hapart.insert h.agreesOn_resultHashing (List.forall_mem_map.mpr htable) hkey

/-- Equality is an equivalence on composed values, and it agrees with hashing: equal values write
the same, so that a table, whatever the hash function, has no two equal keys. -/
theorem equality_agrees_with_hashing (h : Heap) {a b c : Value}
    (ha : h.Composed a) (hb : h.Composed b) (hc : h.Composed c) :
    h.equal a a = true ∧
      (h.equal a b = true → h.equal b a = true) ∧
      (h.equal a b = true → h.equal b c = true → h.equal a c = true) ∧
      (h.equal a b = true → h.hashing.writes a = h.hashing.writes b) ∧
      h.KeepsKeysApart :=
  have hequivalent := h.equivalentOn_equal
  ⟨hequivalent.refl a ha, hequivalent.symm a b ha hb, hequivalent.trans a b c ha hb hc,
    h.agreesOn_hashing a b ha hb, h.keepsKeysApart⟩

/-- The tuples `(1,)` and `(1.0,)`, and two dictionaries that have one of them as their key. -/
def oneTwice : Heap where
  tuples := #[#[.constant (.int 1)], #[.constant (.float 1.0)]]
  dicts := #[#[(.tuple ⟨0⟩, .constant .none)], #[(.tuple ⟨1⟩, .constant .none)]]

theorem composed_tuple_oneTwice {i : Nat} (hi : i < 2) : oneTwice.Composed (.tuple ⟨i⟩) := by
  have hint : (Constant.int 1).IsTold := by
    change (1 : Int64).toInt.natAbs ≤ 2 ^ 53
    decide
  have hfloat : (Constant.float 1.0).IsTold := rfl
  refine .tuple _ fun v hv => ?_
  rcases Nat.le_one_iff_eq_zero_or_eq_one.mp (Nat.le_of_lt_succ hi) with rfl | rfl
  · obtain rfl : v = .constant (.int 1) := by simpa [oneTwice, tuple] using hv
    exact .constant _ hint
  · obtain rfl : v = .constant (.float 1.0) := by simpa [oneTwice, tuple] using hv
    exact .constant _ hfloat

theorem composed_dict_oneTwice {i : Nat} (hi : i < 2) : oneTwice.Composed (.dict ⟨i⟩) := by
  have hdict : oneTwice.dict ⟨i⟩ = #[(.tuple ⟨i⟩, .constant .none)] := by
    rcases Nat.le_one_iff_eq_zero_or_eq_one.mp (Nat.le_of_lt_succ hi) with rfl | rfl <;> rfl
  have hentry (e : Value × Value) (he : e ∈ oneTwice.dict ⟨i⟩) :
      e = (.tuple ⟨i⟩, .constant .none) := by simpa [hdict] using he
  refine .dict _ (fun e he => ?_) (fun e he => ?_) ?_
  · rw [hentry e he]
    exact composed_tuple_oneTwice hi
  · rw [hentry e he]
    exact .constant _ trivial
  · rw [hdict]
    exact List.pairwise_singleton _ _

theorem one_equals_its_double_as_key :
    oneTwice.equal (.dict ⟨0⟩) (.dict ⟨1⟩) = true ∧
      oneTwice.equal (.dict ⟨1⟩) (.dict ⟨0⟩) = true ∧
      oneTwice.hashing.writes (.tuple ⟨0⟩) = oneTwice.hashing.writes (.tuple ⟨1⟩) ∧
      oneTwice.KeepsKeysApart := by
  have hdicts := equality_agrees_with_hashing oneTwice
    (composed_dict_oneTwice (i := 0) (by decide)) (composed_dict_oneTwice (i := 1) (by decide))
    (composed_dict_oneTwice (i := 0) (by decide))
  have htuples := equality_agrees_with_hashing oneTwice
    (composed_tuple_oneTwice (i := 0) (by decide)) (composed_tuple_oneTwice (i := 1) (by decide))
    (composed_tuple_oneTwice (i := 0) (by decide))
  have hequal : oneTwice.equal (.dict ⟨0⟩) (.dict ⟨1⟩) = true := by decide +kernel
  have hkeys : oneTwice.equal (.tuple ⟨0⟩) (.tuple ⟨1⟩) = true := by decide +kernel
  exact ⟨hequal, hdicts.2.1 hequal, htuples.2.2.2.1 hkeys, hdicts.2.2.2.2⟩

end Heap

end StagedScript
