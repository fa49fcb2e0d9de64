/-!
# Sorting

Short lists are sorted by insertion, long ones are halved and merged.  Both
keep items in their order unless one comes strictly before the other, so items
without an order stay as they are.  The first comparison is that of the second
item with the first one, and the first that fails ends the sorting.  By
`perm_sort` a sorted list has the items of the list that it was made from.
-/

namespace StagedScript.Sorting

variable {α ε : Type}

/-- Inserts an item into a reversed sorted list: it moves past the items that it precedes. -/
def insertItem (precedes : α → α → Except ε Bool) (item : α) : List α → Except ε (List α)
  | [] => .ok [item]
  | other :: rest => do
    if ← precedes item other then return other :: (← insertItem precedes item rest)
    else return item :: other :: rest

def insertItems (precedes : α → α → Except ε Bool) (sorted : List α) :
    List α → Except ε (List α)
  | [] => .ok sorted
  | item :: items => do insertItems precedes (← insertItem precedes item sorted) items

/-- Merges two sorted lists behind a reversed one; of equal items those of the first list come
first. -/
def mergeOnto (precedes : α → α → Except ε Bool) (merged : List α) :
    List α → List α → Except ε (List α)
  | [], bs => .ok (merged.reverseAux bs)
  | as, [] => .ok (merged.reverseAux as)
  | a :: as, b :: bs => do
    if ← precedes b a then mergeOnto precedes (b :: merged) (a :: as) bs
    else mergeOnto precedes (a :: merged) as (b :: bs)
  termination_by as bs => as.length + bs.length

/-- The length up to which insertion alone sorts a list. -/
def shortLength : Nat := 20

/-- Sorts a list that is halved at most `n` times. -/
def sortWithin (precedes : α → α → Except ε Bool) : Nat → List α → Except ε (List α)
  | 0, items => return (← insertItems precedes [] items).reverse
  | n + 1, items =>
    if items.length ≤ shortLength then return (← insertItems precedes [] items).reverse
    else do
      let half := items.length / 2
      let front ← sortWithin precedes n (items.take half)
      let back ← sortWithin precedes n (items.drop half)
      mergeOnto precedes [] front back

/-- Sorts a list in ascending order, or gives the first comparison that failed. -/
def sort (precedes : α → α → Except ε Bool) (items : List α) : Except ε (List α) :=
  sortWithin precedes items.length items

theorem perm_insertItem {precedes : α → α → Except ε Bool} {item : α} {items sorted : List α}
    (h : insertItem precedes item items = .ok sorted) : sorted.Perm (item :: items) := by
  induction items generalizing sorted with
  | nil =>
    simp only [insertItem, Except.ok.injEq] at h
    exact .of_eq h.symm
  | cons other rest ih =>
    unfold insertItem at h
    cases hp : precedes item other with
    | error e => simp [hp, bind, Except.bind] at h
    | ok b =>
      cases b with
      | false =>
        simp only [hp, bind, Except.bind, pure, Except.pure, Bool.false_eq_true, if_false,
          Except.ok.injEq] at h
        exact .of_eq h.symm
      | true =>
        cases hr : insertItem precedes item rest with
        | error e => simp [hp, hr, bind, Except.bind] at h
        | ok inserted =>
          simp only [hp, hr, bind, Except.bind, pure, Except.pure, if_true, Except.ok.injEq] at h
          exact h ▸ ((ih hr).cons other).trans (.swap item other rest)

theorem perm_insertItems {precedes : α → α → Except ε Bool} {items before sorted : List α}
    (h : insertItems precedes before items = .ok sorted) : sorted.Perm (items ++ before) := by
  induction items generalizing before with
  | nil =>
    simp only [insertItems, Except.ok.injEq] at h
    exact .of_eq h.symm
  | cons item items ih =>
    unfold insertItems at h
    cases hi : insertItem precedes item before with
    | error e => simp [hi, bind, Except.bind] at h
    | ok inserted =>
      simp only [hi, bind, Except.bind] at h
      exact (ih h).trans (((perm_insertItem hi).append_left items).trans List.perm_middle)

theorem perm_mergeOnto {precedes : α → α → Except ε Bool} {merged as bs sorted : List α}
    (h : mergeOnto precedes merged as bs = .ok sorted) :
    sorted.Perm (merged ++ (as ++ bs)) := by
  fun_induction mergeOnto precedes merged as bs with
  | case1 merged bs =>
    simp only [Except.ok.injEq] at h
    rw [← h, List.reverseAux_eq]
    exact (List.reverse_perm merged).append_right bs
  | case2 merged as =>
    simp only [Except.ok.injEq] at h
    rw [← h, List.reverseAux_eq, List.append_nil]
    exact (List.reverse_perm merged).append_right as
  | case3 merged a as b bs ihb iha =>
    cases hp : precedes b a with
    | error e => simp [hp, bind, Except.bind] at h
    | ok c =>
      cases c with
      | false =>
        simp only [hp, bind, Except.bind, Bool.false_eq_true, if_false] at h
        exact (iha h).trans List.perm_middle.symm
      | true =>
        simp only [hp, bind, Except.bind, if_true] at h
        refine (ihb h).trans (List.perm_middle.symm.trans (.append_left merged ?_))
        exact List.perm_middle.symm

theorem perm_sortWithin {precedes : α → α → Except ε Bool} {n : Nat} {items sorted : List α}
    (h : sortWithin precedes n items = .ok sorted) : sorted.Perm items := by
  have short {items sorted : List α}
      (h : (do return (← insertItems precedes [] items).reverse) = Except.ok (ε := ε) sorted) :
      sorted.Perm items := by
    cases hi : insertItems precedes [] items with
    | error e => simp [hi, bind, Except.bind] at h
    | ok inserted =>
      simp only [hi, bind, Except.bind, pure, Except.pure, Except.ok.injEq] at h
      rw [← h, ← List.append_nil items]
      exact (List.reverse_perm _).trans (perm_insertItems hi)
  induction n generalizing items sorted with
  | zero => exact short h
  | succ n ih =>
    unfold sortWithin at h
    split at h
    · exact short h
    · cases hf : sortWithin precedes n (items.take (items.length / 2)) with
      | error e => simp [hf, bind, Except.bind] at h
      | ok front =>
        cases hb : sortWithin precedes n (items.drop (items.length / 2)) with
        | error e => simp [hf, hb, bind, Except.bind] at h
        | ok back =>
          simp only [hf, hb, bind, Except.bind] at h
          have hmerge := perm_mergeOnto h
          rw [List.nil_append] at hmerge
          refine hmerge.trans (((ih hf).append (ih hb)).trans ?_)
          rw [List.take_append_drop]

/-- A sorted list is a rearrangement of the list that was to be sorted. -/
theorem perm_sort {precedes : α → α → Except ε Bool} {items sorted : List α}
    (h : sort precedes items = .ok sorted) : sorted.Perm items :=
  perm_sortWithin h

end StagedScript.Sorting
