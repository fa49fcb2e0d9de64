import Mathlib.Data.List.Forall2
import StagedScript.Proofs.Value.Contents

/-!
# Values with settled contents

Cells are only added to a heap while literals are evaluated.  A value is settled
if it has the same contents on every heap with further cells, at every depth at
which it could have been built.
-/

namespace StagedScript

open Syntax (Constant)

namespace Heap

/-- The second heap has all containers of the first one and possibly more, and hashes alike. -/
structure Extends (h h' : Heap) : Prop where
  tuples : h.tuples.toList <+: h'.tuples.toList
  lists : h.lists.toList <+: h'.lists.toList
  dicts : h.dicts.toList <+: h'.dicts.toList
  digest : h'.digest = h.digest

namespace Extends

variable {h h' h'' : Heap}

theorem refl (h : Heap) : h.Extends h :=
  ⟨List.prefix_rfl, List.prefix_rfl, List.prefix_rfl, rfl⟩

theorem trans (hh : h.Extends h') (hh' : h'.Extends h'') : h.Extends h'' :=
  ⟨hh.tuples.trans hh'.tuples, hh.lists.trans hh'.lists, hh.dicts.trans hh'.dicts,
    hh'.digest.trans hh.digest⟩

theorem containers_le (hh : h.Extends h') : h.containers ≤ h'.containers := by
  have htuples := hh.tuples.length_le
  have hlists := hh.lists.length_le
  have hdicts := hh.dicts.length_le
  simp only [Array.length_toList] at htuples hlists hdicts
  unfold containers
  omega

theorem addTuple (h : Heap) (items : Array Value) : h.Extends (h.addTuple items).2 :=
  ⟨by simp [Heap.addTuple], List.prefix_rfl, List.prefix_rfl, rfl⟩

theorem addList (h : Heap) (items : Array Value) : h.Extends (h.addList items).2 :=
  ⟨List.prefix_rfl, by simp [Heap.addList], List.prefix_rfl, rfl⟩

theorem addDict (h : Heap) (entries : Array (Value × Value)) : h.Extends (h.addDict entries).2 :=
  ⟨List.prefix_rfl, List.prefix_rfl, by simp [Heap.addDict], rfl⟩

end Extends

theorem containers_addTuple (h : Heap) (items : Array Value) :
    (h.addTuple items).2.containers = h.containers + 1 := by
  simp [addTuple, containers]
  omega

theorem containers_addList (h : Heap) (items : Array Value) :
    (h.addList items).2.containers = h.containers + 1 := by
  simp [addList, containers]
  omega

theorem containers_addDict (h : Heap) (entries : Array (Value × Value)) :
    (h.addDict entries).2.containers = h.containers + 1 := by
  simp [addDict, containers]
  omega

/-- The last cell stays where it is when others follow it. -/
theorem getElem?_of_prefix_push {α : Type} {as bs : Array α} {a : α}
    (h : (as.push a).toList <+: bs.toList) : bs[as.size]? = some a := by
  obtain ⟨more, hmore⟩ := h
  rw [← Array.getElem?_toList, ← hmore]
  simp

/-- Down to a depth the value has the contents of the datum. -/
def Shows (h : Heap) (n : Nat) (v : Value) (d : Datum) : Prop :=
  (h.viewWithin n v).contents = d.contents

/-- The value has the contents of the datum now and after more cells were added. -/
def Settled (h : Heap) (v : Value) (d : Datum) : Prop :=
  ∀ h', h.Extends h' → ∀ n, h.containers ≤ n → h'.Shows n v d

namespace Settled

variable {h h' : Heap} {v w : Value} {d e : Datum}

theorem mono (hv : h.Settled v d) (hh : h.Extends h') : h'.Settled v d :=
  fun h'' hh' n hn => hv h'' (hh.trans hh') n (Nat.le_trans hh.containers_le hn)

theorem shows (hv : h.Settled v d) : h.Shows h.containers v d :=
  hv h (.refl h) _ (Nat.le_refl _)

theorem constant (h : Heap) (c : Constant) : h.Settled (.constant c) (.constant c) :=
  fun _ _ n _ => by cases n <;> rfl

theorem itemContents {items : List Value} {ds : List Datum} (hh : h.Extends h') {n : Nat}
    (hn : h.containers ≤ n) (hitems : List.Forall₂ h.Settled items ds) :
    Datum.itemContents (items.map (h'.viewWithin n)) = Datum.itemContents ds := by
  induction hitems with
  | nil => rfl
  | cons hitem _ ih => rw [List.map_cons, Datum.itemContents, Datum.itemContents, ih,
      show _ = _ from hitem h' hh n hn]

theorem tuple {items : Array Value} {ds : List Datum}
    (hitems : List.Forall₂ h.Settled items.toList ds) (r : Ref .tuple) :
    (h.addTuple items).2.Settled (.tuple (h.addTuple items).1) (.tuple r ds) := by
  intro h' hh n hn
  have hcell : h'.tuple (h.addTuple items).1 = items := by
    rw [Heap.tuple, addTuple, getElem?_of_prefix_push hh.tuples]
    rfl
  rw [containers_addTuple] at hn
  obtain ⟨n, rfl⟩ := Nat.exists_eq_add_one_of_ne_zero (Nat.ne_zero_of_lt hn)
  rw [Shows, viewWithin, hcell, Datum.contents, Datum.contents,
    itemContents ((Extends.addTuple h items).trans hh) (Nat.le_of_succ_le_succ hn) hitems]

theorem list {items : Array Value} {ds : List Datum}
    (hitems : List.Forall₂ h.Settled items.toList ds) (r : Ref .list) :
    (h.addList items).2.Settled (.list (h.addList items).1) (.list r ds) := by
  intro h' hh n hn
  have hcell : h'.list (h.addList items).1 = items := by
    rw [Heap.list, addList, getElem?_of_prefix_push hh.lists]
    rfl
  rw [containers_addList] at hn
  obtain ⟨n, rfl⟩ := Nat.exists_eq_add_one_of_ne_zero (Nat.ne_zero_of_lt hn)
  rw [Shows, viewWithin, hcell, Datum.contents, Datum.contents,
    itemContents ((Extends.addList h items).trans hh) (Nat.le_of_succ_le_succ hn) hitems]

end Settled

def SettledEntry (h : Heap) (entry : Value × Value) (d : Datum × Datum) : Prop :=
  h.Settled entry.1 d.1 ∧ h.Settled entry.2 d.2

theorem SettledEntry.mono {h h' : Heap} {entry : Value × Value} {d : Datum × Datum}
    (hentry : h.SettledEntry entry d) (hh : h.Extends h') : h'.SettledEntry entry d :=
  ⟨hentry.1.mono hh, hentry.2.mono hh⟩

namespace Settled

variable {h h' : Heap} {v w : Value} {d e : Datum}

theorem entryContents {entries : List (Value × Value)} {ds : List (Datum × Datum)}
    (hh : h.Extends h') {n : Nat} (hn : h.containers ≤ n)
    (hentries : List.Forall₂ h.SettledEntry entries ds) :
    Datum.entryContents (entries.map fun (key, value) =>
      (h'.viewWithin n key, h'.viewWithin n value)) = Datum.entryContents ds := by
  induction hentries with
  | nil => rfl
  | cons hentry _ ih =>
    rw [List.map_cons, Datum.entryContents, Datum.entryContents, ih,
      show _ = _ from hentry.1 h' hh n hn, show _ = _ from hentry.2 h' hh n hn]

theorem dict {entries : Array (Value × Value)} {ds : List (Datum × Datum)}
    (hentries : List.Forall₂ h.SettledEntry entries.toList ds) (r : Ref .dict) :
    (h.addDict entries).2.Settled (.dict (h.addDict entries).1) (.dict r ds) := by
  intro h' hh n hn
  have hcell : h'.dict (h.addDict entries).1 = entries := by
    rw [Heap.dict, addDict, getElem?_of_prefix_push hh.dicts]
    rfl
  rw [containers_addDict] at hn
  obtain ⟨n, rfl⟩ := Nat.exists_eq_add_one_of_ne_zero (Nat.ne_zero_of_lt hn)
  rw [Shows, viewWithin, hcell, Datum.contents, Datum.contents,
    entryContents ((Extends.addDict h entries).trans hh) (Nat.le_of_succ_le_succ hn) hentries]

theorem isHashable (hv : h.Settled v d) : h.isHashable v = d.isHashable := by
  rw [isHashable_eq, ← Datum.isHashable_contents, view, show _ = _ from hv.shows,
    Datum.isHashable_contents]

end Settled

theorem agreeItems_of_sameItems {h : Heap} {n : Nat} {as bs : List Value}
    (hitems : ∀ a b, (h.viewWithin n a).IsKey ∨ (h.viewWithin n b).IsKey →
      h.equalWithin n a b = true → (h.viewWithin n a).agrees (h.viewWithin n b) = true)
    (hkeys : Datum.AreKeys (as.map (h.viewWithin n)) ∨ Datum.AreKeys (bs.map (h.viewWithin n)))
    (hsame : as.isEqv bs (h.equalWithin n) = true) :
    Datum.agreeItems (as.map (h.viewWithin n)) (bs.map (h.viewWithin n)) = true := by
  induction as generalizing bs with
  | nil =>
    cases bs with
    | nil => rfl
    | cons b bs => exact Bool.noConfusion hsame
  | cons a as ih =>
    cases bs with
    | nil => exact Bool.noConfusion hsame
    | cons b bs =>
      have hboth := Bool.and_eq_true_iff.mp hsame
      rw [List.map_cons, List.map_cons, Datum.agreeItems,
        hitems a b (hkeys.imp And.left And.left) hboth.1, ih (hkeys.imp And.right And.right) hboth.2]
      rfl

/-- Equal values of which one is a key have contents that agree, whether or not they are the same
tuple. -/
theorem agrees_of_equalWithin (h : Heap) (n : Nat) (a b : Value)
    (hkey : (h.viewWithin n a).IsKey ∨ (h.viewWithin n b).IsKey)
    (hequal : h.equalWithin n a b = true) :
    (h.viewWithin n a).agrees (h.viewWithin n b) = true := by
  induction n generalizing a b with
  | zero =>
    cases a <;> cases b <;>
      first | exact hequal | exact Bool.noConfusion hequal | exact (or_self_iff.mp hkey).elim
  | succ n ih =>
    cases a with
    | tuple r =>
      cases b with
      | tuple s =>
        rcases Bool.or_eq_true_iff.mp hequal with hsame | hitems
        -- The same tuple has the same contents, and a key agrees with itself.
        · obtain rfl := eq_of_beq hsame
          exact Datum.agrees_self _ (or_self_iff.mp hkey)
        · rw [sameItems_eq] at hitems
          exact agreeItems_of_sameItems ih hkey hitems
      | _ => exact Bool.noConfusion hequal
    | constant c =>
      cases b with
      | constant c' => exact hequal
      | _ => exact Bool.noConfusion hequal
    | _ => cases b <;> first | exact Bool.noConfusion hequal | exact (or_self_iff.mp hkey).elim

/-- Values of which one is a key are equal only if their contents agree. -/
theorem Shows.agrees_of_equalWithin {h : Heap} {n : Nat} {v w : Value} {d e : Datum}
    (hv : h.Shows n v d) (hw : h.Shows n w e) (hkey : d.IsKey ∨ e.IsKey)
    (hequal : h.equalWithin n v w = true) : d.agrees e = true := by
  have hkey' : (h.viewWithin n v).IsKey ∨ (h.viewWithin n w).IsKey := by
    rw [← Datum.isKey_contents, ← Datum.isKey_contents (h.viewWithin n w), show _ = _ from hv,
      show _ = _ from hw, Datum.isKey_contents, Datum.isKey_contents]
    exact hkey
  have hagrees := h.agrees_of_equalWithin n v w hkey' hequal
  rwa [← Datum.agrees_contents, show _ = _ from hv, show _ = _ from hw, Datum.agrees_contents]
    at hagrees

end Heap

end StagedScript
