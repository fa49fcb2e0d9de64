import Mathlib.Data.List.Nodup
import Mathlib.Data.List.Perm.Subperm
import StagedScript.Proofs.Value.Hashing
import StagedScript.Proofs.Value.Keys

/-!
# Equality as an equivalence

On composed values equality is reflexive, symmetric and transitive.  This is
shown depth by depth: what equality is on the contents of containers it is on the
containers.  Dictionaries of the same size whose entries all have an equal one in
the other are equal both ways, since distinct keys have distinct partners.
-/

namespace StagedScript

open Syntax (Constant)

/-- Equality is an equivalence on the values with a property. -/
structure EquivalentOn {α : Type} (p : α → Prop) (equal : α → α → Bool) : Prop where
  refl : ∀ a, p a → equal a a = true
  symm : ∀ a b, p a → p b → equal a b = true → equal b a = true
  trans : ∀ a b c, p a → p b → p c → equal a b = true → equal b c = true → equal a c = true

section Sequences

variable {α : Type} {p : α → Prop} {equal equal' : α → α → Bool}

theorem sameItems_congr {as bs : Array α}
    (h : ∀ a ∈ as, ∀ b ∈ bs, equal a b = equal' a b) :
    sameItems equal as bs = sameItems equal' as bs := by
  rw [Bool.eq_iff_iff, sameItems_iff, sameItems_iff]
  refine and_congr_right fun _ => forall_congr' fun i => forall_congr' fun a =>
    forall_congr' fun b => forall_congr' fun ha => forall_congr' fun hb => ?_
  rw [h a (Array.mem_of_getElem? ha) b (Array.mem_of_getElem? hb)]

theorem EquivalentOn.sameItems (he : EquivalentOn p equal) :
    EquivalentOn (fun as : Array α => ∀ a ∈ as, p a) (sameItems equal) where
  refl as has := by
    refine sameItems_iff.mpr ⟨rfl, fun i a b ha hb => ?_⟩
    obtain rfl : a = b := Option.some.inj (ha.symm.trans hb)
    exact he.refl a (has a (Array.mem_of_getElem? ha))
  symm as bs has hbs h := by
    obtain ⟨hsize, hitems⟩ := sameItems_iff.mp h
    exact sameItems_iff.mpr ⟨hsize.symm, fun i b a hb ha =>
      he.symm a b (has a (Array.mem_of_getElem? ha)) (hbs b (Array.mem_of_getElem? hb))
        (hitems i a b ha hb)⟩
  trans as bs cs has hbs hcs hab hbc := by
    obtain ⟨hsize, hitems⟩ := sameItems_iff.mp hab
    obtain ⟨hsize', hitems'⟩ := sameItems_iff.mp hbc
    refine sameItems_iff.mpr ⟨hsize.trans hsize', fun i a c ha hc => ?_⟩
    obtain ⟨hi, -⟩ := Array.getElem?_eq_some_iff.mp ha
    have hb : bs[i]? = some bs[i] := Array.getElem?_eq_getElem (hsize ▸ hi)
    exact he.trans a bs[i] c (has a (Array.mem_of_getElem? ha))
      (hbs _ (Array.mem_of_getElem? hb)) (hcs c (Array.mem_of_getElem? hc))
      (hitems i a _ ha hb) (hitems' i _ c hb hc)

end Sequences

/-! ## Dictionaries -/

section Dictionaries

variable {α : Type} {p : α → Prop} {equal : α → α → Bool} {s : Hashing α}

/-- The keys and values of the entries have a property, and no key equals one in front of it. -/
structure IsDictionary (p : α → Prop) (equal : α → α → Bool) (entries : Array (α × α)) : Prop where
  key : ∀ e ∈ entries, p e.1
  value : ∀ e ∈ entries, p e.2
  distinct : entries.toList.Pairwise fun e e' => equal e'.1 e.1 = false

def EntriesAgree (equal : α → α → Bool) (e e' : α × α) : Prop :=
  equal e.1 e'.1 = true ∧ equal e.2 e'.2 = true

namespace IsDictionary

variable {as bs : Array (α × α)}

theorem nodup (he : EquivalentOn p equal) (has : IsDictionary p equal as) : as.toList.Nodup := by
  refine has.distinct.imp_of_mem fun {e e'} hmem _ hdistinct => ?_
  rintro rfl
  rw [he.refl e.1 (has.key e (Array.mem_toList_iff.mp hmem))] at hdistinct
  exact Bool.noConfusion hdistinct

/-- Entries with equal keys are the same. -/
theorem eq_of_equal (he : EquivalentOn p equal) (has : IsDictionary p equal as) {e e' : α × α}
    (hmem : e ∈ as) (hmem' : e' ∈ as) (hkeys : equal e.1 e'.1 = true) : e = e' := by
  have hforward : as.toList.Pairwise fun e e' => equal e.1 e'.1 = true → e = e' := by
    refine has.distinct.imp_of_mem fun {d d'} hd hd' hdistinct hequal => ?_
    rw [he.symm _ _ (has.key d (Array.mem_toList_iff.mp hd))
      (has.key d' (Array.mem_toList_iff.mp hd')) hequal] at hdistinct
    exact Bool.noConfusion hdistinct
  have hbackward : as.toList.Pairwise (flip fun e e' => equal e.1 e'.1 = true → e = e') :=
    has.distinct.imp fun hdistinct hequal =>
      Bool.noConfusion (hdistinct.symm.trans hequal)
  exact hforward.forall_of_forall_of_flip (fun _ _ _ => rfl) hbackward
    (Array.mem_toList_iff.mpr hmem) (Array.mem_toList_iff.mpr hmem') hkeys

end IsDictionary

/-- Two dictionaries are equal if they are as large and all entries of the first have a partner in
the second, since there is no other entry that an equal key could be found in. -/
theorem sameEntries_iff (he : EquivalentOn p s.equal) (hs : s.AgreesOn p) {as bs : Array (α × α)}
    (has : IsDictionary p s.equal as) (hbs : IsDictionary p s.equal bs) :
    s.sameEntries as bs = true ↔
      as.size = bs.size ∧ ∀ e ∈ as, ∃ e' ∈ bs, EntriesAgree s.equal e e' := by
  rw [Hashing.sameEntries, Bool.and_eq_true, beq_iff_eq, Array.all_eq_true_iff_forall_mem]
  refine and_congr_right fun _ => forall_congr' fun e => forall_congr' fun hmem => ?_
  rw [Option.any_eq_true]
  constructor
  · rintro ⟨e', hfind, hvalues⟩
    have hmem' := Array.mem_of_find?_eq_some hfind
    have hfound := Array.find?_some hfind
    rw [hs.finds_eq (has.key e hmem) (hbs.key e' hmem')] at hfound
    exact ⟨e', hmem', hfound, hvalues⟩
  · rintro ⟨e', hmem', hkeys, hvalues⟩
    cases hfind : bs.find? fun other => s.finds e.1 other.1 with
    | none =>
      have hnone := Array.find?_eq_none.mp hfind e' hmem'
      rw [hs.finds_eq (has.key e hmem) (hbs.key e' hmem')] at hnone
      exact absurd hkeys hnone
    | some found =>
      have hin := Array.mem_of_find?_eq_some hfind
      have hfound := Array.find?_some hfind
      rw [hs.finds_eq (has.key e hmem) (hbs.key found hin)] at hfound
      have hsame : found = e' := hbs.eq_of_equal he hin hmem'
        (he.trans _ _ _ (hbs.key _ hin) (has.key _ hmem) (hbs.key e' hmem')
          (he.symm _ _ (has.key _ hmem) (hbs.key _ hin) hfound) hkeys)
      exact ⟨found, rfl, hsame ▸ hvalues⟩

theorem sameEntries_congr {s s' : Hashing α} {as bs : Array (α × α)}
    (hkeys : ∀ e ∈ as, ∀ e' ∈ bs, s.finds e.1 e'.1 = s'.finds e.1 e'.1)
    (hvalues : ∀ e ∈ as, ∀ e' ∈ bs, s.equal e.2 e'.2 = s'.equal e.2 e'.2) :
    s.sameEntries as bs = s'.sameEntries as bs := by
  rw [Hashing.sameEntries, Hashing.sameEntries, Bool.eq_iff_iff, Bool.and_eq_true,
    Bool.and_eq_true, Array.all_eq_true_iff_forall_mem, Array.all_eq_true_iff_forall_mem]
  refine and_congr_right fun _ => forall_congr' fun e => forall_congr' fun hmem => ?_
  have hfind : (bs.find? fun other => s.finds e.1 other.1) =
      bs.find? fun other => s'.finds e.1 other.1 := by
    rw [← Array.find?_toList, ← Array.find?_toList]
    exact List.find?_congr fun e' he' => hkeys e hmem e' (Array.mem_toList_iff.mp he')
  rw [hfind, Option.any_eq_true, Option.any_eq_true]
  refine exists_congr fun e' => and_congr_right fun hsome => ?_
  rw [hvalues e hmem e' (Array.mem_of_find?_eq_some hsome)]

theorem EquivalentOn.sameEntries (he : EquivalentOn p s.equal) (hs : s.AgreesOn p) :
    EquivalentOn (IsDictionary p s.equal) s.sameEntries where
  refl as has := by
    refine (sameEntries_iff he hs has has).mpr ⟨rfl, fun e hmem => ⟨e, hmem, ?_⟩⟩
    exact ⟨he.refl _ (has.key e hmem), he.refl _ (has.value e hmem)⟩
  symm as bs has hbs h := by
    obtain ⟨hsize, hpartner⟩ := (sameEntries_iff he hs has hbs).mp h
    choose! partner hin hagree using hpartner
    -- The partners are as many as there are entries, so that they are all entries of the other.
    have hinjective : ∀ e ∈ as.toList, ∀ e' ∈ as.toList, partner e = partner e' → e = e' := by
      intro e hmem e' hmem' hsame
      rw [Array.mem_toList_iff] at hmem hmem'
      have hback := he.symm _ _ (has.key e' hmem') (hbs.key _ (hin e' hmem')) (hagree e' hmem').1
      exact has.eq_of_equal he hmem hmem' (he.trans _ _ _ (has.key e hmem)
        (hbs.key _ (hin e hmem)) (has.key e' hmem') (hagree e hmem).1 (hsame ▸ hback))
    have hsubset : as.toList.map partner ⊆ bs.toList := by
      intro e' hmem'
      obtain ⟨e, hmem, rfl⟩ := List.mem_map.mp hmem'
      exact Array.mem_toList_iff.mpr (hin e (Array.mem_toList_iff.mp hmem))
    have hperm : (as.toList.map partner).Perm bs.toList :=
      (List.subperm_of_subset ((has.nodup he).map_on hinjective) hsubset).perm_of_length_le
        (by simp [hsize])
    refine (sameEntries_iff he hs hbs has).mpr ⟨hsize.symm, fun e' hmem' => ?_⟩
    obtain ⟨e, hmem, rfl⟩ := List.mem_map.mp (hperm.mem_iff.mpr (Array.mem_toList_iff.mpr hmem'))
    rw [Array.mem_toList_iff] at hmem
    have hagree := hagree e hmem
    exact ⟨e, hmem, he.symm _ _ (has.key e hmem) (hbs.key _ hmem') hagree.1,
      he.symm _ _ (has.value e hmem) (hbs.value _ hmem') hagree.2⟩
  trans as bs cs has hbs hcs hab hbc := by
    obtain ⟨hsize, hpartner⟩ := (sameEntries_iff he hs has hbs).mp hab
    obtain ⟨hsize', hpartner'⟩ := (sameEntries_iff he hs hbs hcs).mp hbc
    refine (sameEntries_iff he hs has hcs).mpr ⟨hsize.trans hsize', fun a ha => ?_⟩
    obtain ⟨b, hb, hagree⟩ := hpartner a ha
    obtain ⟨c, hc, hagree'⟩ := hpartner' b hb
    exact ⟨c, hc, he.trans _ _ _ (has.key a ha) (hbs.key b hb) (hcs.key c hc) hagree.1 hagree'.1,
      he.trans _ _ _ (has.value a ha) (hbs.value b hb) (hcs.value c hc) hagree.2 hagree'.2⟩

end Dictionaries

/-- On constants that are told apart equality is an equivalence. -/
theorem equivalentOn_constantsEqual : EquivalentOn Constant.IsTold Datum.constantsEqual where
  refl c hc := by
    cases c with
    | float x => exact Decimal.beq_self_of_isNaN_eq_false hc
    | none => rfl
    | bool b => exact beq_self_eq_true b
    | int n => exact beq_self_eq_true n
    | string s => exact beq_self_eq_true s
  symm c d _ _ h := (Datum.constantsEqual_symm c d).trans h
  trans c d e hc _ he hcd hde := by
    have hexact {c : Constant} (hc : c.IsTold) : (Datum.constant c).IsExact := by
      cases c with
      | int n => exact hc
      | _ => trivial
    exact Datum.constantsEqual_of_common (hexact hc) (hexact he) hcd
      ((Datum.constantsEqual_symm d e).trans hde)

namespace EquivalentOn

variable {α β : Type} {p : α → Prop} {equal : α → α → Bool}

theorem mono {q : α → Prop} (he : EquivalentOn p equal) (hq : ∀ a, q a → p a) :
    EquivalentOn q equal where
  refl a ha := he.refl a (hq a ha)
  symm a b ha hb := he.symm a b (hq a ha) (hq b hb)
  trans a b c ha hb hc := he.trans a b c (hq a ha) (hq b hb) (hq c hc)

/-- References are equal if they are the same or what they refer to is equal. -/
theorem orSame {k : CellKind} (he : EquivalentOn p equal) (f : Ref k → α) :
    EquivalentOn (fun r => p (f r)) fun r s => r == s || equal (f r) (f s) where
  refl r _ := Bool.or_eq_true_iff.mpr (.inl (beq_self_eq_true r))
  symm r s hr hs h := by
    rcases Bool.or_eq_true_iff.mp h with hsame | h
    · rw [eq_of_beq hsame, beq_self_eq_true, Bool.true_or]
    · rw [he.symm _ _ hr hs h, Bool.or_true]
  trans r s t hr hs ht hrs hst := by
    rcases Bool.or_eq_true_iff.mp hrs with hsame | hrs
    · rw [eq_of_beq hsame]
      exact hst
    rcases Bool.or_eq_true_iff.mp hst with hsame | hst
    · rw [← eq_of_beq hsame, hrs, Bool.or_true]
    · rw [he.trans _ _ _ hr hs ht hrs hst, Bool.or_true]

end EquivalentOn

/-! ## Values -/

namespace Heap

variable {h : Heap} {n k : Nat} {a b : Value}

/-- The value is composed and so many containers deep at most. -/
def ComposedWithin (h : Heap) (n : Nat) (v : Value) : Prop :=
  h.Composed v ∧ h.NestedWithin n v

/-- An equivalence on each kind of values is one on all of them. -/
theorem equivalentOn_of_kinds {p : Value → Prop} (hp : ∀ v, p v → h.Composed v)
    (htuple : EquivalentOn (fun r => p (.tuple r))
      fun r s => h.equalWithin n (.tuple r) (.tuple s))
    (hlist : EquivalentOn (fun r => p (.list r)) fun r s => h.equalWithin n (.list r) (.list s))
    (hdict : EquivalentOn (fun r => p (.dict r)) fun r s => h.equalWithin n (.dict r) (.dict s)) :
    EquivalentOn p (h.equalWithin n) := by
  have hconstant : EquivalentOn (fun c => p (.constant c))
      fun c d => h.equalWithin n (.constant c) (.constant d) := by
    have htold (c : Constant) (hc : p (.constant c)) : c.IsTold := by
      cases hp _ hc with
      | constant _ hc => exact hc
    have hequal : (fun c d => h.equalWithin n (.constant c) (.constant d)) =
        Datum.constantsEqual := by
      cases n <;> rfl
    exact hequal ▸ equivalentOn_constantsEqual.mono htold
  refine ⟨fun a ha => ?_, fun a b ha hb hab => ?_, fun a b c ha hb hc hab hbc => ?_⟩
  · cases hp a ha with
    | constant c => exact hconstant.refl c ha
    | tuple r => exact htuple.refl r ha
    | list r => exact hlist.refl r ha
    | dict r => exact hdict.refl r ha
  · cases sameKind_of_equalWithin (hp a ha) hab with
    | constants c d => exact hconstant.symm c d ha hb hab
    | tuples r s => exact htuple.symm r s ha hb hab
    | lists r s => exact hlist.symm r s ha hb hab
    | dicts r s => exact hdict.symm r s ha hb hab
  · cases sameKind_of_equalWithin (hp a ha) hab with
    | constants _ _ =>
      cases sameKind_of_equalWithin (hp _ hb) hbc
      exact hconstant.trans _ _ _ ha hb hc hab hbc
    | tuples _ _ =>
      cases sameKind_of_equalWithin (hp _ hb) hbc
      exact htuple.trans _ _ _ ha hb hc hab hbc
    | lists _ _ =>
      cases sameKind_of_equalWithin (hp _ hb) hbc
      exact hlist.trans _ _ _ ha hb hc hab hbc
    | dicts _ _ =>
      cases sameKind_of_equalWithin (hp _ hb) hbc
      exact hdict.trans _ _ _ ha hb hc hab hbc

theorem ComposedWithin.tuple {r : Ref .tuple} (hr : h.ComposedWithin (n + 1) (.tuple r)) :
    ∀ v ∈ h.tuple r, h.ComposedWithin n v := by
  intro v hv
  obtain ⟨hcomposed, hnested⟩ := hr
  cases hcomposed with
  | tuple _ items => exact ⟨items v hv, hnested v hv⟩

theorem ComposedWithin.list {r : Ref .list} (hr : h.ComposedWithin (n + 1) (.list r)) :
    ∀ v ∈ h.list r, h.ComposedWithin n v := by
  intro v hv
  obtain ⟨hcomposed, hnested⟩ := hr
  cases hcomposed with
  | list _ items => exact ⟨items v hv, hnested v hv⟩

theorem ComposedWithin.dict {r : Ref .dict} (hr : h.ComposedWithin (n + 1) (.dict r)) :
    (∀ e ∈ h.dict r, h.ComposedWithin n e.1) ∧ (∀ e ∈ h.dict r, h.ComposedWithin n e.2) ∧
      h.DistinctKeys (h.dict r) := by
  obtain ⟨hcomposed, hnested⟩ := hr
  cases hcomposed with
  | dict _ keys values distinct =>
    exact ⟨fun e he => ⟨keys e he, hnested _ ⟨e, he, .inl rfl⟩⟩,
      fun e he => ⟨values e he, hnested _ ⟨e, he, .inr rfl⟩⟩, distinct⟩

theorem NestedWithin.tuple_eq {r : Ref .tuple} (hr : h.NestedWithin 0 (.tuple r)) :
    h.tuple r = #[] :=
  Array.eq_empty_iff_forall_not_mem.mpr hr

theorem NestedWithin.list_eq {r : Ref .list} (hr : h.NestedWithin 0 (.list r)) :
    h.list r = #[] :=
  Array.eq_empty_iff_forall_not_mem.mpr hr

theorem NestedWithin.dict_eq {r : Ref .dict} (hr : h.NestedWithin 0 (.dict r)) :
    h.dict r = #[] :=
  Array.eq_empty_iff_forall_not_mem.mpr fun e he => hr e.1 ⟨e, he, .inl rfl⟩

/-- Deeper than the values are nested there is nothing more to compare. -/
theorem equalWithin_add_one (ha : h.ComposedWithin n a) (hb : h.ComposedWithin n b) :
    h.equalWithin (n + 1) a b = h.equalWithin n a b := by
  induction n generalizing a b with
  | zero =>
    -- Nothing is opened at the depth zero, where all containers are empty.
    cases ha.1 with
    | constant c => cases b <;> rfl
    | tuple r =>
      cases b with
      | tuple s =>
        change (r == s || sameItems _ (h.tuple r) (h.tuple s)) = true
        rw [ha.2.tuple_eq, hb.2.tuple_eq]
        exact Bool.or_true _
      | _ => rfl
    | list r =>
      cases b with
      | list s =>
        change (r == s || sameItems _ (h.list r) (h.list s)) = true
        rw [ha.2.list_eq, hb.2.list_eq]
        exact Bool.or_true _
      | _ => rfl
    | dict r =>
      cases b with
      | dict s =>
        change (r == s || (h.hashingWithin 0).sameEntries (h.dict r) (h.dict s)) = true
        rw [ha.2.dict_eq, hb.2.dict_eq,
          show (h.hashingWithin 0).sameEntries #[] #[] = true by simp [Hashing.sameEntries]]
        exact Bool.or_true _
      | _ => rfl
  | succ n ih =>
    cases ha.1 with
    | constant c => cases b <;> rfl
    | tuple r =>
      cases b with
      | tuple s =>
        exact congrArg (r == s || ·)
          (sameItems_congr fun v hv w hw => ih (ha.tuple v hv) (hb.tuple w hw))
      | _ => rfl
    | list r =>
      cases b with
      | list s =>
        exact congrArg (r == s || ·)
          (sameItems_congr fun v hv w hw => ih (ha.list v hv) (hb.list w hw))
      | _ => rfl
    | dict r =>
      cases b with
      | dict s =>
        have hkeys (e) (he : e ∈ h.dict r) (e') (he' : e' ∈ h.dict s) :
            (h.hashingWithin (n + 1)).finds e.1 e'.1 = (h.hashingWithin n).finds e.1 e'.1 := by
          have hkey := ha.dict.1 e he
          have hkey' := hb.dict.1 e' he'
          rw [(h.agreesOn_hashingWithin _).finds_eq hkey.1 hkey'.1,
            (h.agreesOn_hashingWithin _).finds_eq hkey.1 hkey'.1]
          exact ih hkey hkey'
        exact congrArg (r == s || ·) (sameEntries_congr hkeys
          fun e he e' he' => ih (ha.dict.2.1 e he) (hb.dict.2.1 e' he'))
      | _ => rfl

theorem equalWithin_of_le (ha : h.ComposedWithin n a) (hb : h.ComposedWithin n b) (hle : n ≤ k) :
    h.equalWithin k a b = h.equalWithin n a b := by
  induction k, hle using Nat.le_induction with
  | base => rfl
  | succ k hle ih =>
    rw [← ih]
    exact equalWithin_add_one ⟨ha.1, ha.2.mono hle⟩ ⟨hb.1, hb.2.mono hle⟩

/-- Any depth that reaches the end of both values tells whether they are equal. -/
theorem equalWithin_eq_equal (ha : h.ComposedWithin n a) (hb : h.ComposedWithin n b) :
    h.equalWithin n a b = h.equal a b := by
  rcases Nat.le_total n h.containers with hle | hle
  · exact (equalWithin_of_le ha hb hle).symm
  · exact equalWithin_of_le ⟨ha.1, ha.1.nestedWithin⟩ ⟨hb.1, hb.1.nestedWithin⟩ hle

/-- What holds of equality within a depth holds of it on containers of things so deep. -/
theorem equivalentOn_equalWithin (h : Heap) (n : Nat) :
    EquivalentOn (h.ComposedWithin n) (h.equalWithin n) := by
  induction n with
  | zero =>
    exact equivalentOn_of_kinds (fun _ hv => hv.1)
      ⟨fun _ _ => rfl, fun _ _ _ _ _ => rfl, fun _ _ _ _ _ _ _ _ => rfl⟩
      ⟨fun _ _ => rfl, fun _ _ _ _ _ => rfl, fun _ _ _ _ _ _ _ _ => rfl⟩
      ⟨fun _ _ => rfl, fun _ _ _ _ _ => rfl, fun _ _ _ _ _ _ _ _ => rfl⟩
  | succ n ih =>
    -- The keys differ, and the depth within which they are compared here tells so.
    have hdictionary (r : Ref .dict) (hr : h.ComposedWithin (n + 1) (.dict r)) :
        IsDictionary (h.ComposedWithin n) (h.equalWithin n) (h.dict r) := by
      obtain ⟨hkeys, hvalues, hdistinct⟩ := hr.dict
      refine ⟨hkeys, hvalues, hdistinct.imp_of_mem fun {e e'} he he' => ?_⟩
      rw [Array.mem_toList_iff] at he he'
      exact (equalWithin_eq_equal (hkeys e' he') (hkeys e he)).trans
    have hentries := EquivalentOn.sameEntries (s := h.hashingWithin n) ih
      fun a b ha hb => h.agreesOn_hashingWithin n a b ha.1 hb.1
    exact equivalentOn_of_kinds (fun _ hv => hv.1)
      ((ih.sameItems.orSame h.tuple).mono fun _ hr => hr.tuple)
      ((ih.sameItems.orSame h.list).mono fun _ hr => hr.list)
      ((hentries.orSame h.dict).mono hdictionary)

theorem Composed.within (ha : h.Composed a) : h.ComposedWithin h.containers a :=
  ⟨ha, ha.nestedWithin⟩

theorem equivalentOn_equal (h : Heap) : EquivalentOn h.Composed h.equal :=
  (h.equivalentOn_equalWithin h.containers).mono fun _ ha => ha.within

theorem equal_dict {r s : Ref .dict} (hr : h.Composed (.dict r)) (hs : h.Composed (.dict s)) :
    h.equal (.dict r) (.dict s) = (r == s || h.hashing.sameEntries (h.dict r) (h.dict s)) :=
  (equalWithin_add_one hr.within hs.within).symm

end Heap

end StagedScript
