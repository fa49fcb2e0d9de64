import Mathlib.Tactic.ByContra
import StagedScript.Builtin.Sorting

/-!
# Sorted lists

Where the comparison of items never fails and ranks them, sorting succeeds and puts
them in ascending order, and the items of one rank stay in the order that they had.
For each of the steps, inserting and merging, this is said of the lists that it is
given and of the list that it makes.
-/

namespace StagedScript.Sorting

variable {α ε : Type}

/-- On the items with a property the comparison is that of ranks: no two of them are in front of
each other, and what is not in front is transitive. -/
structure Ranks (p : α → Prop) (before : α → α → Bool) : Prop where
  asymm : ∀ a b, p a → p b → before a b = true → before b a = false
  trans : ∀ a b c, p a → p b → p c → before b a = false → before c b = false → before c a = false

/-- Two items are on one rank if neither is in front of the other. -/
def onRank (before : α → α → Bool) (a b : α) : Bool :=
  !before a b && !before b a

theorem onRank_iff {before : α → α → Bool} {a b : α} :
    onRank before a b = true ↔ before a b = false ∧ before b a = false := by
  rw [onRank, Bool.and_eq_true, Bool.not_eq_true', Bool.not_eq_true']

/-- No item is in front of an earlier one. -/
def Ascending (before : α → α → Bool) (items : List α) : Prop :=
  items.Pairwise fun a b => before b a = false

/-- The items of each rank are the same ones in the same order. -/
def KeepsRanks (p : α → Prop) (before : α → α → Bool) (items sorted : List α) : Prop :=
  ∀ v, p v → sorted.filter (onRank before v) = items.filter (onRank before v)

section Steps

variable {p : α → Prop} {before : α → α → Bool} {precedes : α → α → Except ε Bool}
  {item : α} {items merged as bs : List α}

theorem Ranks.irrefl (hr : Ranks p before) {a : α} (ha : p a) : before a a = false := by
  apply Bool.eq_false_iff.mpr
  intro hself
  rw [hr.asymm a a ha ha hself] at hself
  exact Bool.noConfusion hself

/-- What is in front of an item is in front of all that is not in front of that item. -/
theorem Ranks.before_of_le (hr : Ranks p before) {a b c : α} (ha : p a) (hb : p b) (hc : p c)
    (hab : before a b = true) (hcb : before c b = false) : before a c = true := by
  by_contra hac
  rw [Bool.not_eq_true] at hac
  rw [hr.trans b c a hb hc ha hcb hac] at hab
  exact Bool.noConfusion hab

/-- What is not behind an item is in front of all that this item is in front of. -/
theorem Ranks.before_of_before (hr : Ranks p before) {a b c : α} (ha : p a) (hb : p b) (hc : p c)
    (hba : before b a = false) (hbc : before b c = true) : before a c = true := by
  by_contra hac
  rw [Bool.not_eq_true] at hac
  rw [hr.trans c a b hc ha hb hac hba] at hbc
  exact Bool.noConfusion hbc

/-- The opposite ranks. -/
theorem Ranks.flip (hr : Ranks p before) : Ranks p fun a b => before b a where
  asymm a b ha hb := hr.asymm b a hb ha
  trans a b c ha hb hc hab hbc := hr.trans c b a hc hb ha hbc hab

/-- An item that moves in front of items of later ranks passes none of its own rank. -/
theorem Ranks.filter_eq (hr : Ranks p before) {v : α} (hv : p v) (hitem : p item)
    (has : ∀ a ∈ as, p a) (hfront : ∀ a ∈ as, before item a = true) :
    (item :: (as ++ bs)).filter (onRank before v) =
      (as ++ item :: bs).filter (onRank before v) := by
  by_cases hone : onRank before v item = true
  · have hnone : as.filter (onRank before v) = [] := by
      rw [List.filter_eq_nil_iff]
      intro a ha htwo
      rw [onRank_iff] at hone htwo
      have hle := hr.trans a v item (has a ha) hv hitem htwo.1 hone.2
      rw [hfront a ha] at hle
      exact Bool.noConfusion hle
    rw [List.filter_cons_of_pos hone, List.filter_append, List.filter_append,
      List.filter_cons_of_pos hone, hnone]
    rfl
  · rw [List.filter_cons_of_neg hone, List.filter_append, List.filter_append,
      List.filter_cons_of_neg hone]

/-- An item is inserted into a descending list behind the items that it is in front of. -/
theorem insertItem_ranks (hr : Ranks p before)
    (hd : ∀ a b, p a → p b → precedes a b = .ok (before a b)) (hitem : p item)
    (hitems : ∀ a ∈ items, p a) (hsorted : Ascending before items.reverse) :
    ∃ inserted, insertItem precedes item items = .ok inserted ∧
      Ascending before inserted.reverse ∧ KeepsRanks p before (item :: items) inserted := by
  induction items with
  | nil =>
    refine ⟨[item], rfl, List.pairwise_singleton _ _, ?_⟩
    intro v _
    rfl
  | cons other items ih =>
    rw [List.forall_mem_cons] at hitems
    rw [Ascending, List.reverse_cons, List.pairwise_append] at hsorted
    obtain ⟨hrest, -, hother⟩ := hsorted
    have hbefore {a : α} (ha : a ∈ items) : before other a = false :=
      hother a (List.mem_reverse.mpr ha) other List.mem_cons_self
    rw [insertItem, hd item other hitem hitems.1]
    by_cases hfront : before item other = true
    · obtain ⟨inserted, hinserted, hascending, hranks⟩ := ih hitems.2 hrest
      refine ⟨other :: inserted, by rw [hfront, hinserted]; rfl, ?_, ?_⟩
      · rw [Ascending, List.reverse_cons, List.pairwise_append]
        refine ⟨hascending, List.pairwise_singleton _ _, ?_⟩
        intro a ha b hb
        rw [List.mem_singleton.mp hb]
        rcases List.mem_cons.mp ((perm_insertItem hinserted).mem_iff.mp (List.mem_reverse.mp ha))
          with rfl | ha
        · exact hr.asymm a other hitem hitems.1 hfront
        · exact hbefore ha
      · intro v hv
        calc (other :: inserted).filter (onRank before v)
            = (other :: item :: items).filter (onRank before v) := by
              rw [List.filter_cons, hranks v hv, ← List.filter_cons]
          _ = (item :: other :: items).filter (onRank before v) :=
              (hr.filter_eq hv hitem (List.forall_mem_singleton.mpr hitems.1)
                (List.forall_mem_singleton.mpr hfront)).symm
    · rw [Bool.not_eq_true] at hfront
      refine ⟨item :: other :: items, by rw [hfront]; rfl, ?_, ?_⟩
      · rw [Ascending, List.reverse_cons, List.pairwise_append, List.reverse_cons,
          List.pairwise_append]
        refine ⟨⟨hrest, List.pairwise_singleton _ _, hother⟩, List.pairwise_singleton _ _, ?_⟩
        intro a ha b hb
        rw [List.mem_singleton.mp hb]
        rcases List.mem_append.mp ha with ha | ha
        · have ha := List.mem_reverse.mp ha
          exact hr.trans a other item (hitems.2 a ha) hitems.1 hitem (hbefore ha) hfront
        · rw [List.mem_singleton.mp ha]
          exact hfront
      · intro v _
        rfl

/-- Items are inserted one by one. -/
theorem insertItems_ranks (hr : Ranks p before)
    (hd : ∀ a b, p a → p b → precedes a b = .ok (before a b)) (hitems : ∀ a ∈ items, p a)
    (hmerged : ∀ a ∈ merged, p a) (hsorted : Ascending before merged.reverse) :
    ∃ inserted, insertItems precedes merged items = .ok inserted ∧
      Ascending before inserted.reverse ∧
      KeepsRanks p before (items.reverse ++ merged) inserted := by
  induction items generalizing merged with
  | nil =>
    refine ⟨merged, rfl, hsorted, ?_⟩
    intro v _
    rfl
  | cons item items ih =>
    rw [List.forall_mem_cons] at hitems
    obtain ⟨inserted, hinserted, hascending, hranks⟩ :=
      insertItem_ranks hr hd hitems.1 hmerged hsorted
    have hmem (a : α) (ha : a ∈ inserted) : p a := by
      rcases List.mem_cons.mp ((perm_insertItem hinserted).mem_iff.mp ha) with rfl | ha
      · exact hitems.1
      · exact hmerged a ha
    obtain ⟨sorted, hsorted, hascending, hkept⟩ := ih hitems.2 hmem hascending
    refine ⟨sorted, by rw [insertItems, hinserted]; exact hsorted, hascending, ?_⟩
    intro v hv
    rw [hkept v hv, List.filter_append, hranks v hv, List.reverse_cons, List.append_assoc,
      ← List.filter_append]
    rfl

/-- Insertion sorts a list. -/
theorem insertItems_sorts (hr : Ranks p before)
    (hd : ∀ a b, p a → p b → precedes a b = .ok (before a b)) (hitems : ∀ a ∈ items, p a) :
    ∃ sorted, (do return (← insertItems precedes [] items).reverse) = Except.ok (ε := ε) sorted ∧
      Ascending before sorted ∧ KeepsRanks p before items sorted := by
  obtain ⟨inserted, hinserted, hascending, hranks⟩ :=
    insertItems_ranks hr hd hitems (List.forall_mem_nil _) List.Pairwise.nil
  refine ⟨inserted.reverse, by rw [hinserted]; rfl, hascending, ?_⟩
  intro v hv
  rw [List.filter_reverse, hranks v hv, List.append_nil, List.filter_reverse, List.reverse_reverse]

/-- Two sorted lists are merged behind a list that is sorted together with each of them. -/
theorem mergeOnto_ranks (hr : Ranks p before)
    (hd : ∀ a b, p a → p b → precedes a b = .ok (before a b)) (merged : List α)
    (has : ∀ a ∈ as, p a) (hbs : ∀ b ∈ bs, p b) (hmas : Ascending before (merged.reverse ++ as))
    (hmbs : Ascending before (merged.reverse ++ bs)) :
    ∃ sorted, mergeOnto precedes merged as bs = .ok sorted ∧ Ascending before sorted ∧
      KeepsRanks p before (merged.reverse ++ (as ++ bs)) sorted := by
  fun_induction mergeOnto precedes merged as bs with
  | case1 merged bs =>
    refine ⟨_, rfl, List.reverseAux_eq ▸ hmbs, ?_⟩
    intro v _
    rw [List.reverseAux_eq, List.nil_append]
  | case2 merged as =>
    refine ⟨_, rfl, List.reverseAux_eq ▸ hmas, ?_⟩
    intro v _
    rw [List.reverseAux_eq, List.append_nil]
  | case3 merged a as b bs ihb iha =>
    have ha := has a List.mem_cons_self
    have hb := hbs b List.mem_cons_self
    obtain ⟨hmerged, hsas, hma⟩ := List.pairwise_append.mp hmas
    obtain ⟨-, hsbs, hmb⟩ := List.pairwise_append.mp hmbs
    rw [hd b a hb ha]
    by_cases hfront : before b a = true
    · -- The item of the second list is in front of all that is left of the first one.
      have hfirst (c : α) (hc : c ∈ a :: as) : before b c = true := by
        have hle : before c a = false := by
          rcases List.mem_cons.mp hc with rfl | hc
          · exact hr.irrefl ha
          · exact List.rel_of_pairwise_cons hsas hc
        exact hr.before_of_le hb ha (has c hc) hfront hle
      have hmbas : Ascending before ((b :: merged).reverse ++ a :: as) := by
        rw [Ascending, List.reverse_cons, List.append_assoc, List.pairwise_append]
        refine ⟨hmerged, List.pairwise_cons.mpr ⟨?_, hsas⟩, ?_⟩
        · intro c hc
          exact hr.asymm b c hb (has c hc) (hfirst c hc)
        · intro c hc d hd
          rcases List.mem_cons.mp hd with rfl | hd
          · exact hmb c hc d List.mem_cons_self
          · exact hma c hc d hd
      have hmbbs : Ascending before ((b :: merged).reverse ++ bs) := by
        rw [List.reverse_cons, List.append_assoc]
        exact hmbs
      obtain ⟨sorted, hsorted, hascending, hranks⟩ :=
        ihb has (fun c hc => hbs c (List.mem_cons_of_mem b hc)) hmbas hmbbs
      refine ⟨sorted, by rw [hfront]; exact hsorted, hascending, ?_⟩
      intro v hv
      have hpast : (b :: (a :: as ++ bs)).filter (onRank before v) =
          (a :: as ++ b :: bs).filter (onRank before v) := hr.filter_eq hv hb has hfirst
      rw [hranks v hv, List.reverse_cons, List.append_assoc, List.singleton_append,
        List.filter_append, hpast, ← List.filter_append]
    · rw [Bool.not_eq_true] at hfront
      have hmaas : Ascending before ((a :: merged).reverse ++ as) := by
        rw [List.reverse_cons, List.append_assoc]
        exact hmas
      have hmabs : Ascending before ((a :: merged).reverse ++ b :: bs) := by
        rw [Ascending, List.reverse_cons, List.append_assoc, List.pairwise_append]
        refine ⟨hmerged, List.pairwise_cons.mpr ⟨?_, hsbs⟩, ?_⟩
        · intro c hc
          rcases List.mem_cons.mp hc with rfl | hc'
          · exact hfront
          · exact hr.trans a b c ha hb (hbs c hc) hfront (List.rel_of_pairwise_cons hsbs hc')
        · intro c hc d hd
          rcases List.mem_cons.mp hd with rfl | hd
          · exact hma c hc d List.mem_cons_self
          · exact hmb c hc d hd
      obtain ⟨sorted, hsorted, hascending, hranks⟩ :=
        iha (fun c hc => has c (List.mem_cons_of_mem a hc)) hbs hmaas hmabs
      refine ⟨sorted, by rw [hfront]; exact hsorted, hascending, ?_⟩
      intro v hv
      rw [hranks v hv, List.reverse_cons, List.append_assoc]
      rfl

/-- A list that is halved some times and sorted by insertion and merging. -/
theorem sortWithin_sorts (hr : Ranks p before)
    (hd : ∀ a b, p a → p b → precedes a b = .ok (before a b)) (n : Nat)
    (hitems : ∀ a ∈ items, p a) :
    ∃ sorted, sortWithin precedes n items = .ok sorted ∧ Ascending before sorted ∧
      KeepsRanks p before items sorted := by
  induction n generalizing items with
  | zero => exact insertItems_sorts hr hd hitems
  | succ n ih =>
    rw [sortWithin]
    by_cases hshort : items.length ≤ shortLength
    · rw [if_pos hshort]
      exact insertItems_sorts hr hd hitems
    · rw [if_neg hshort]
      have hfront (a : α) (ha : a ∈ items.take (items.length / 2)) : p a :=
        hitems a (List.mem_of_mem_take ha)
      have hback (a : α) (ha : a ∈ items.drop (items.length / 2)) : p a :=
        hitems a (List.mem_of_mem_drop ha)
      obtain ⟨front, hfrontSorted, hfrontAscending, hfrontRanks⟩ := ih hfront
      obtain ⟨back, hbackSorted, hbackAscending, hbackRanks⟩ := ih hback
      obtain ⟨sorted, hsorted, hascending, hranks⟩ := mergeOnto_ranks hr hd []
        (fun a ha => hfront a ((perm_sortWithin hfrontSorted).mem_iff.mp ha))
        (fun b hb => hback b ((perm_sortWithin hbackSorted).mem_iff.mp hb))
        hfrontAscending hbackAscending
      refine ⟨sorted, ?_, hascending, ?_⟩
      · simp only [hfrontSorted, hbackSorted, bind, Except.bind]
        exact hsorted
      · intro v hv
        rw [hranks v hv, List.reverse_nil, List.nil_append, List.filter_append,
          hfrontRanks v hv, hbackRanks v hv, ← List.filter_append, List.take_append_drop]

/-- Sorting rearranges a list that is ranked into ascending order and keeps every rank as it is. -/
theorem sort_sorts (hr : Ranks p before)
    (hd : ∀ a b, p a → p b → precedes a b = .ok (before a b)) (hitems : ∀ a ∈ items, p a) :
    ∃ sorted, sort precedes items = .ok sorted ∧ sorted.Perm items ∧ Ascending before sorted ∧
      KeepsRanks p before items sorted := by
  obtain ⟨sorted, hsorted, hascending, hranks⟩ := sortWithin_sorts hr hd items.length hitems
  exact ⟨sorted, hsorted, perm_sort hsorted, hascending, hranks⟩

end Steps

end StagedScript.Sorting
