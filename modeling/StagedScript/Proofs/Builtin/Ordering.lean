import Mathlib.Data.List.Pairwise
import StagedScript.Builtin.Function
import StagedScript.Proofs.Builtin.Sorting
import StagedScript.Proofs.Value.Ordering
import StagedScript.Proofs.Value.Settled

/-!
# Comparing, sorting and choosing

Whole numbers, truth values and strings, and tuples and lists of them, are compared
by a total order as far as they can be compared.  Sorting a list of such values
arranges it by that order and keeps equal items as they were; the least of them is
the first of the sorted list, and the greatest one equals the last.
-/

namespace StagedScript

open Run (bind_of_error bind_of_ok)
open Sorting (Ascending KeepsRanks Ranks onRank onRank_iff)
open Syntax (BinaryOp)

/-! ## Comparisons -/

/-- A comparison succeeds and holds. -/
def Machine.Holds (m : Machine) (op : BinaryOp) (a b : Value) : Prop :=
  Run.binary op a b m = .ok (.bool true) m

namespace Machine

variable {m : Machine} {op : BinaryOp} {a b : Value}

/-- Comparing values changes nothing, and it fails if the heap has no order for them. -/
theorem run_order (m : Machine) (op : BinaryOp) (a b : Value) :
    Run.order op a b m =
      match m.heap.order a b with
      | .ok o => .ok o m
      | .error types => .error (.raised (Fault.notOrdered op types.left types.right).exception) m := by
  change (match m.heap.order a b with
    | .ok o => pure o
    | .error types => Run.fault (.notOrdered op types.left types.right) : Run _) m = _
  cases m.heap.order a b <;> rfl

theorem run_order_eq_ok {o : Option Ordering} :
    Run.order op a b m = .ok o m ↔ m.heap.order a b = .ok o := by
  rw [run_order]
  cases m.heap.order a b <;> simp

theorem holds_eq_iff : m.Holds .eq a b ↔ m.heap.equal a b = true := by
  change (EStateM.Result.ok (Value.bool (m.heap.equal a b)) m : EStateM.Result _ _ _) = _ ↔ _
  simp

/-- A comparison by order holds if there is an order and it is one of those asked for. -/
theorem holds_iff (hop : op = .lt ∨ op = .le) :
    m.Holds op a b ↔ ∃ o, m.heap.order a b = .ok o ∧ Run.holds op o = true := by
  have hrun : Run.binary op a b m =
      (do return .bool (Run.holds op (← Run.order op a b)) : Run Value) m := by
    rcases hop with rfl | rfl <;> rfl
  rw [Holds, hrun]
  cases h : m.heap.order a b with
  | ok o =>
    rw [bind_of_ok (run_order_eq_ok.mpr h)]
    simp [pure, EStateM.pure]
  | error types =>
    have hfails : Run.order op a b m = _ := (run_order m op a b).trans (by rw [h])
    rw [bind_of_error hfails]
    simp

theorem holds_lt_iff : m.Holds .lt a b ↔ m.heap.order a b = .ok (some .lt) := by
  rw [holds_iff (.inl rfl)]
  constructor
  · rintro ⟨o, ho, hlt⟩
    match o, hlt with
    | some .lt, _ => exact ho
  · intro h
    exact ⟨_, h, rfl⟩

theorem holds_le_iff : m.Holds .le a b ↔
    m.heap.order a b = .ok (some .lt) ∨ m.heap.order a b = .ok (some .eq) := by
  rw [holds_iff (.inr rfl)]
  constructor
  · rintro ⟨o, ho, hle⟩
    match o, hle with
    | some .lt, _ => exact .inl ho
    | some .eq, _ => exact .inr ho
  · rintro (h | h)
    · exact ⟨_, h, rfl⟩
    · exact ⟨_, h, rfl⟩

/-- The values that can be ordered are ordered totally as far as they have an order: it is never
left open, it is the opposite one the other way round, and it agrees with equality. -/
structure OrdersTotally (m : Machine) : Prop where
  decided : ∀ a b, m.heap.Orderable a → m.heap.Orderable b → ∀ op,
    (∃ x, Run.order op a b m = .ok (some x) m) ∨ ∃ e, Run.order op a b m = .error (.raised e) m
  opposite : ∀ a b, m.heap.Orderable a → m.heap.Orderable b → ∀ op op' x,
    Run.order op a b m = .ok (some x) m ↔ Run.order op' b a m = .ok (some x.swap) m
  equal_iff : ∀ a b, m.heap.Orderable a → m.heap.Orderable b → ∀ op,
    Run.order op a b m = .ok (some .eq) m ↔ m.Holds .eq a b
  trans : ∀ a b c, m.heap.Orderable a → m.heap.Orderable b → m.heap.Orderable c →
    m.Holds .lt a b → m.Holds .lt b c → m.Holds .lt a c
  le_iff : ∀ a b, m.heap.Orderable a → m.heap.Orderable b →
    (m.Holds .le a b ↔ m.Holds .lt a b ∨ m.Holds .eq a b)

theorem ordersTotally (m : Machine) : m.OrdersTotally := by
  have ho := m.heap.orderedOn_order
  constructor
  · intro a b ha hb op
    rw [run_order]
    cases h : m.heap.order a b with
    | ok o =>
      obtain ⟨x, rfl, -⟩ := ho.swap a b o ha hb h
      exact .inl ⟨x, rfl⟩
    | error types => exact .inr ⟨_, rfl⟩
  · intro a b ha hb op op' x
    rw [run_order_eq_ok, run_order_eq_ok]
    constructor
    · exact ho.order_swap ha hb
    · intro h
      have hback := ho.order_swap hb ha h
      rwa [Ordering.swap_swap] at hback
  · intro a b ha hb op
    rw [run_order_eq_ok, holds_eq_iff]
    exact (ho.equal_iff a b ha hb).symm
  · intro a b c ha hb hc
    rw [holds_lt_iff, holds_lt_iff, holds_lt_iff]
    exact ho.trans a b c ha hb hc
  · intro a b ha hb
    rw [holds_le_iff, holds_lt_iff, holds_eq_iff, ho.equal_iff a b ha hb]

end Machine

/-! ## Ranks of values -/

namespace Heap

variable {h : Heap} {items : List Value} {a b : Value}

def isBefore (h : Heap) (a b : Value) : Bool :=
  (h.precedes a b).toOption == some true

theorem isBefore_iff : h.isBefore a b = true ↔ h.order a b = .ok (some .lt) := by
  rw [isBefore, precedes]
  cases h.order a b <;> simp [Except.map, Except.toOption]

/-- The values can be ordered, and any two of them have an order. -/
structure Comparable (h : Heap) (items : List Value) : Prop where
  orderable : ∀ v ∈ items, h.Orderable v
  ordered : ∀ a ∈ items, ∀ b ∈ items, ∃ x, h.order a b = .ok (some x)

theorem comparable_of_pairwise (horderable : ∀ v ∈ items, h.Orderable v)
    (hpairwise : items.Pairwise fun a b => ∃ x, h.order a b = .ok (some x)) :
    h.Comparable items := by
  have ho := h.orderedOn_order
  constructor
  · exact horderable
  · have hswapped : items.Pairwise (flip fun a b => ∃ x, h.order a b = .ok (some x)) := by
      apply hpairwise.imp_of_mem
      rintro a b ha hb ⟨x, hx⟩
      exact ⟨_, ho.order_swap (horderable a ha) (horderable b hb) hx⟩
    intro a ha b hb
    apply hpairwise.forall_of_forall_of_flip _ hswapped ha hb
    intro v hv
    exact ⟨_, ho.refl v (horderable v hv)⟩

namespace Comparable

theorem precedes_eq (hc : h.Comparable items) (ha : a ∈ items) (hb : b ∈ items) :
    h.precedes a b = .ok (h.isBefore a b) := by
  obtain ⟨x, hx⟩ := hc.ordered a ha b hb
  rw [isBefore, precedes, hx]
  cases x <;> rfl

/-- Where a value does not come before another one, that one comes before it or equals it. -/
theorem order_of_isBefore_eq_false (hc : h.Comparable items) (ha : a ∈ items) (hb : b ∈ items)
    (hba : h.isBefore b a = false) :
    h.order a b = .ok (some .lt) ∨ h.order a b = .ok (some .eq) := by
  obtain ⟨x, hx⟩ := hc.ordered a ha b hb
  cases x with
  | lt => exact .inl hx
  | eq => exact .inr hx
  | gt =>
    have hback := h.orderedOn_order.order_swap (hc.orderable a ha) (hc.orderable b hb) hx
    rw [isBefore_iff.mpr hback] at hba
    exact Bool.noConfusion hba

theorem isBefore_eq_false (hc : h.Comparable items) (ha : a ∈ items) (hb : b ∈ items)
    (hab : h.order a b = .ok (some .lt) ∨ h.order a b = .ok (some .eq)) :
    h.isBefore b a = false := by
  apply Bool.eq_false_iff.mpr
  intro hba
  have hback := h.orderedOn_order.order_swap (hc.orderable b hb) (hc.orderable a ha)
    (isBefore_iff.mp hba)
  rcases hab with hab | hab
  · exact nomatch hab.symm.trans hback
  · exact nomatch hab.symm.trans hback

theorem ranks (hc : h.Comparable items) : Ranks (· ∈ items) h.isBefore := by
  have ho := h.orderedOn_order
  constructor
  · intro a b ha hb hab
    exact hc.isBefore_eq_false ha hb (.inl (isBefore_iff.mp hab))
  · intro a b c ha hb hc' hba hcb
    have ha' := hc.orderable a ha
    have hb' := hc.orderable b hb
    have hc'' := hc.orderable c hc'
    apply hc.isBefore_eq_false ha hc'
    rcases hc.order_of_isBefore_eq_false ha hb hba with hab | hab
    · left
      rcases hc.order_of_isBefore_eq_false hb hc' hcb with hbc | hbc
      · exact ho.trans a b c ha' hb' hc'' hab hbc
      · exact ho.congr_right ha' hb' hc'' ((ho.equal_iff b c hb' hc'').mpr hbc) hab
    · rw [ho.congr a b c ha' hb' hc'' ((ho.equal_iff a b ha' hb').mpr hab)]
      exact hc.order_of_isBefore_eq_false hb hc' hcb

/-- The values of one rank are the equal ones. -/
theorem onRank_eq (hc : h.Comparable items) (ha : a ∈ items) (hb : b ∈ items) :
    onRank h.isBefore a b = h.equal a b := by
  have ho := h.orderedOn_order
  rw [Bool.eq_iff_iff, onRank_iff,
    ho.equal_iff a b (hc.orderable a ha) (hc.orderable b hb)]
  constructor
  · rintro ⟨hab, hba⟩
    rcases hc.order_of_isBefore_eq_false ha hb hba with hlt | heq
    · rw [isBefore_iff.mpr hlt] at hab
      exact Bool.noConfusion hab
    · exact heq
  · intro heq
    have hback := ho.order_swap (hc.orderable a ha) (hc.orderable b hb) heq
    exact ⟨hc.isBefore_eq_false hb ha (.inr hback), hc.isBefore_eq_false ha hb (.inr heq)⟩

end Comparable

end Heap

/-! ## Choosing -/

section Choosing

variable {α : Type} {p : α → Prop} {before : α → α → Bool}

/-- The first item that no other one is in front of. -/
def IsFirst (before : α → α → Bool) (items : List α) (first : α) : Prop :=
  ∃ left right, items = left ++ first :: right ∧ (∀ a ∈ left, before first a = true) ∧
    ∀ a ∈ right, before a first = false

theorem IsFirst.mem {items : List α} {first : α} (h : IsFirst before items first) :
    first ∈ items := by
  obtain ⟨left, right, rfl, -, -⟩ := h
  exact List.mem_append_right left List.mem_cons_self

theorem IsFirst.before_eq_false (hr : Ranks p before) {items : List α} (hitems : ∀ a ∈ items, p a)
    {first : α} (h : IsFirst before items first) {a : α} (ha : a ∈ items) :
    before a first = false := by
  have hfirst := hitems first h.mem
  obtain ⟨left, right, rfl, hleft, hright⟩ := h
  rcases List.mem_append.mp ha with hmem | hmem
  · exact hr.asymm first a hfirst (hitems a ha) (hleft a hmem)
  · rcases List.mem_cons.mp hmem with rfl | hmem
    · exact hr.irrefl hfirst
    · exact hright a hmem

/-- The first item stays the first one behind an item that another one comes before. -/
theorem IsFirst.cons_of_before (hr : Ranks p before) {items : List α} {first item best : α}
    (h : IsFirst before (item :: items) first) (hbest : p best) (hitems : ∀ a ∈ item :: items, p a)
    (hfront : before item best = true) : IsFirst before (best :: item :: items) first := by
  have hitem := h.before_eq_false hr hitems List.mem_cons_self
  have hnew : before first best = true :=
    hr.before_of_before (hitems first h.mem) (hitems item List.mem_cons_self) hbest hitem hfront
  obtain ⟨left, right, hsplit, hleft, hright⟩ := h
  exact ⟨best :: left, right, by rw [hsplit]; rfl, List.forall_mem_cons.mpr ⟨hnew, hleft⟩, hright⟩

/-- The first item stays the first one if an item is put in that does not come before the
foremost. -/
theorem IsFirst.insert (hr : Ranks p before) {items : List α} {first item best : α}
    (h : IsFirst before (best :: items) first) (hbest : p best) (hitem : p item)
    (hitems : ∀ a ∈ items, p a) (hback : before item best = false) :
    IsFirst before (best :: item :: items) first := by
  have hmem : ∀ a ∈ best :: items, p a := List.forall_mem_cons.mpr ⟨hbest, hitems⟩
  have hfirst := hmem first h.mem
  obtain ⟨left, right, hsplit, hleft, hright⟩ := h
  cases left with
  | nil =>
    obtain ⟨rfl, rfl⟩ := List.cons.inj hsplit
    exact ⟨[], item :: items, rfl, hleft, List.forall_mem_cons.mpr ⟨hback, hright⟩⟩
  | cons other left =>
    obtain ⟨rfl, rfl⟩ := List.cons.inj hsplit
    rw [List.forall_mem_cons] at hleft
    have hnew := hr.before_of_le hfirst hbest hitem hleft.1 hback
    exact ⟨best :: item :: left, right, rfl,
      List.forall_mem_cons.mpr ⟨hleft.1, List.forall_mem_cons.mpr ⟨hnew, hleft.2⟩⟩, hright⟩

/-- A list that is sorted without touching the ranks begins with the first item. -/
theorem IsFirst.head?_eq (hr : Ranks p before) {items sorted : List α} (hitems : ∀ a ∈ items, p a)
    {first : α} (h : IsFirst before items first) (hperm : sorted.Perm items)
    (hascending : Ascending before sorted) (hranks : KeepsRanks p before items sorted) :
    sorted.head? = some first := by
  have hp := hitems first h.mem
  have hfirst {a : α} (ha : a ∈ sorted) : before a first = false :=
    h.before_eq_false hr hitems (hperm.mem_iff.mp ha)
  have hmem : first ∈ sorted := hperm.mem_iff.mpr h.mem
  have hself : onRank before first first = true := onRank_iff.mpr ⟨hr.irrefl hp, hr.irrefl hp⟩
  have hitem : (items.filter (onRank before first)).head? = some first := by
    obtain ⟨left, right, rfl, hleft, -⟩ := h
    have hnone : left.filter (onRank before first) = [] := by
      rw [List.filter_eq_nil_iff]
      intro a ha hone
      rw [onRank_iff, hleft a ha] at hone
      exact Bool.noConfusion hone.1
    rw [List.filter_append, hnone, List.nil_append, List.filter_cons_of_pos hself, List.head?_cons]
  -- No item comes before the head of the sorted list either, so it is on the rank of the first
  -- item, and on that rank both lists agree.
  cases sorted with
  | nil => exact absurd hmem List.not_mem_nil
  | cons head rest =>
    have hhead : before first head = false := by
      rcases List.mem_cons.mp hmem with rfl | hmem
      · exact hr.irrefl hp
      · exact List.rel_of_pairwise_cons hascending hmem
    have hone : onRank before first head = true :=
      onRank_iff.mpr ⟨hhead, hfirst List.mem_cons_self⟩
    rw [← hitem, ← hranks first hp, List.filter_cons_of_pos hone, List.head?_cons, List.head?_cons]

/-- The last item of a sorted list is on the rank of any item that none is beyond. -/
theorem onRank_getLast {items sorted : List α} (hperm : sorted.Perm items)
    (hascending : Ascending before sorted) {greatest last : α} (hmem : greatest ∈ items)
    (hgreatest : ∀ a ∈ items, before greatest a = false) (hself : before last last = false)
    (hlast : sorted.getLast? = some last) : onRank before greatest last = true := by
  obtain ⟨init, rfl⟩ := List.getLast?_eq_some_iff.mp hlast
  have hin : last ∈ init ++ [last] := List.mem_append_right init List.mem_cons_self
  rw [onRank_iff]
  constructor
  · exact hgreatest last (hperm.mem_iff.mp hin)
  · rcases List.mem_append.mp (hperm.mem_iff.mpr hmem) with hinit | hone
    · exact (List.pairwise_append.mp hascending).2.2 greatest hinit last List.mem_cons_self
    · rw [List.mem_singleton.mp hone]
      exact hself

end Choosing

namespace Builtin

variable {m : Machine} {p : Value → Prop} {before : Value → Value → Bool} {op : BinaryOp}
  {wanted : Ordering}

/-- Going through the items chooses the first one that no other one is in front of. -/
theorem extreme_isFirst (hr : Ranks p before)
    (hd : ∀ a b, p a → p b →
      ∃ o, Run.order op a b m = .ok o m ∧ (o = some wanted ↔ before a b = true))
    {best : Value} {items : List Value} (hbest : p best) (hitems : ∀ a ∈ items, p a) :
    ∃ first, extreme op wanted best items m = .ok first m ∧
      IsFirst before (best :: items) first := by
  induction items generalizing best with
  | nil => exact ⟨best, rfl, [], [], rfl, List.forall_mem_nil _, List.forall_mem_nil _⟩
  | cons item items ih =>
    rw [List.forall_mem_cons] at hitems
    obtain ⟨o, ho, hwanted⟩ := hd item best hitems.1 hbest
    rw [extreme, bind_of_ok ho]
    by_cases hfront : before item best = true
    · obtain ⟨first, hfirst, hitem⟩ := ih hitems.1 hitems.2
      rw [if_pos (hwanted.mpr hfront)]
      exact ⟨first, hfirst, hitem.cons_of_before hr hbest (List.forall_mem_cons.mpr hitems) hfront⟩
    · obtain ⟨first, hfirst, hbest'⟩ := ih hbest hitems.2
      rw [if_neg fun h => hfront (hwanted.mp h)]
      rw [Bool.not_eq_true] at hfront
      exact ⟨first, hfirst, hbest'.insert hr hbest hitems.1 hitems.2 hfront⟩

theorem iterate_list (m : Machine) (r : Ref .list) :
    Run.iterate (.list r) m = .ok (m.heap.list r).toList m :=
  rfl

/-- The items of a list are what is chosen from. -/
theorem candidates_list {r : Ref .list} {item : Value} {items : List Value}
    (hitems : (m.heap.list r).toList = item :: items) (f : GlobalFunction) :
    candidates f [.list r] m = .ok (item :: items) m := by
  rw [candidates, bind_of_ok (iterate_list m r), hitems]
  rfl

theorem callGlobal_min {r : Ref .list} {item : Value} {items : List Value}
    (hitems : (m.heap.list r).toList = item :: items) :
    callGlobal .min [.list r] m = extreme .lt .lt item items m := by
  rw [callGlobal, bind_of_ok (candidates_list hitems _)]
  rfl

theorem callGlobal_max {r : Ref .list} {item : Value} {items : List Value}
    (hitems : (m.heap.list r).toList = item :: items) :
    callGlobal .max [.list r] m = extreme .gt .gt item items m := by
  rw [callGlobal, bind_of_ok (candidates_list hitems _)]
  rfl

theorem callGlobal_sorted {r : Ref .list} {items : List Value}
    (hsorted : Sorting.sort m.heap.precedes (m.heap.list r).toList = .ok items) :
    callGlobal .sorted [.list r] m = .ok (.list (m.heap.addList items.toArray).1)
      { m with heap := (m.heap.addList items.toArray).2 } := by
  change sorted (m.heap.list r).toList m = _
  rw [sorted, bind_of_ok (Run.getHeap_ok m), hsorted]
  rfl

end Builtin

/-! ## Functions on lists -/

/-- The second list has the items of the first one in ascending order, and equal items in the order
that they had. -/
structure Machine.IsSorting (m : Machine) (items sorted : List Value) : Prop where
  perm : sorted.Perm items
  ascending : sorted.Pairwise (m.Holds .le)
  stable : ∀ v ∈ items, sorted.filter (m.heap.equal v) = items.filter (m.heap.equal v)

section Functions

variable {m : Machine} {items sorted : List Value}

theorem Heap.Comparable.isSorting (hc : m.heap.Comparable items) (hperm : sorted.Perm items)
    (hascending : Ascending m.heap.isBefore sorted)
    (hranks : KeepsRanks (· ∈ items) m.heap.isBefore items sorted) :
    m.IsSorting items sorted where
  perm := hperm
  ascending := by
    apply hascending.imp_of_mem
    intro a b ha hb hback
    rw [Machine.holds_le_iff]
    exact hc.order_of_isBefore_eq_false (hperm.mem_iff.mp ha) (hperm.mem_iff.mp hb) hback
  stable v hv := by
    have hrank {w : Value} (hw : w ∈ items) : m.heap.equal v w = onRank m.heap.isBefore v w :=
      (hc.onRank_eq hv hw).symm
    calc sorted.filter (m.heap.equal v)
        = sorted.filter (onRank m.heap.isBefore v) :=
          List.filter_congr fun w hw => hrank (hperm.mem_iff.mp hw)
      _ = items.filter (onRank m.heap.isBefore v) := hranks v hv
      _ = items.filter (m.heap.equal v) := List.filter_congr fun w hw => (hrank hw).symm

namespace Builtin

variable {r : Ref .list}

/-- The least item of a list is the first one of the sorted list. -/
theorem callGlobal_min_sorted (hc : m.heap.Comparable items)
    (hitems : (m.heap.list r).toList = items) (hne : items ≠ []) (hperm : sorted.Perm items)
    (hascending : Ascending m.heap.isBefore sorted)
    (hranks : KeepsRanks (· ∈ items) m.heap.isBefore items sorted) :
    ∃ least, callGlobal .min [.list r] m = .ok least m ∧ sorted.head? = some least := by
  obtain ⟨item, rest, rfl⟩ := List.exists_cons_of_ne_nil hne
  have hdecides (a b : Value) (ha : a ∈ item :: rest) (hb : b ∈ item :: rest) :
      ∃ o, Run.order .lt a b m = .ok o m ∧ (o = some .lt ↔ m.heap.isBefore a b = true) := by
    obtain ⟨x, hx⟩ := hc.ordered a ha b hb
    refine ⟨some x, Machine.run_order_eq_ok.mpr hx, ?_⟩
    rw [Heap.isBefore_iff, hx, Except.ok.injEq]
  obtain ⟨least, hleast, hfirst⟩ := extreme_isFirst hc.ranks hdecides List.mem_cons_self
    fun a ha => List.mem_cons_of_mem item ha
  refine ⟨least, ?_, hfirst.head?_eq hc.ranks (fun _ ha => ha) hperm hascending hranks⟩
  rw [callGlobal_min hitems]
  exact hleast

/-- The greatest item of a list equals the last one of the sorted list. -/
theorem callGlobal_max_sorted (hc : m.heap.Comparable items)
    (hitems : (m.heap.list r).toList = items) (hne : items ≠ []) (hperm : sorted.Perm items)
    (hascending : Ascending m.heap.isBefore sorted) :
    ∃ greatest last, callGlobal .max [.list r] m = .ok greatest m ∧
      sorted.getLast? = some last ∧ m.Holds .eq greatest last := by
  obtain ⟨item, rest, rfl⟩ := List.exists_cons_of_ne_nil hne
  have hdecides (a b : Value) (ha : a ∈ item :: rest) (hb : b ∈ item :: rest) :
      ∃ o, Run.order .gt a b m = .ok o m ∧ (o = some .gt ↔ m.heap.isBefore b a = true) := by
    obtain ⟨x, hx⟩ := hc.ordered a ha b hb
    have hback := m.heap.orderedOn_order.order_swap (hc.orderable a ha) (hc.orderable b hb) hx
    refine ⟨some x, Machine.run_order_eq_ok.mpr hx, ?_⟩
    rw [Heap.isBefore_iff, hback, Except.ok.injEq]
    cases x <;> decide
  obtain ⟨greatest, hgreatest, hfirst⟩ := extreme_isFirst hc.ranks.flip hdecides List.mem_cons_self
    fun a ha => List.mem_cons_of_mem item ha
  have hsorted : sorted ≠ [] := by
    rintro rfl
    exact hne hperm.nil_eq.symm
  have hlast : sorted.getLast? = some (sorted.getLast hsorted) := List.getLast?_eq_some_getLast hsorted
  have hmem : sorted.getLast hsorted ∈ item :: rest := hperm.mem_iff.mp (List.getLast_mem hsorted)
  refine ⟨greatest, sorted.getLast hsorted, ?_, hlast, ?_⟩
  · rw [callGlobal_max hitems]
    exact hgreatest
  · rw [Machine.holds_eq_iff, ← hc.onRank_eq hfirst.mem hmem]
    exact onRank_getLast hperm hascending hfirst.mem
      (fun a ha => hfirst.before_eq_false hc.ranks.flip (fun _ ha => ha) ha) (hc.ranks.irrefl hmem) hlast

end Builtin

/-- Values are ordered totally as far as they can be compared, and if any two items of a list can
be, then it is sorted into ascending order without touching equal items, the least one is the
first one of the sorted list, and the greatest one equals the last. -/
theorem order_is_total_and_lists_sort (m : Machine) :
    m.OrdersTotally ∧
      ∀ r : Ref .list, m.heap.list r ≠ #[] → (∀ v ∈ m.heap.list r, m.heap.Orderable v) →
        ((m.heap.list r).toList.Pairwise fun a b => ∃ o, Run.order .lt a b m = .ok o m) →
        ∃ sorted, m.IsSorting (m.heap.list r).toList sorted ∧
          (∃ s m', Builtin.callGlobal .sorted [.list r] m = .ok (.list s) m' ∧
            m'.heap.list s = sorted.toArray ∧ m.heap.Extends m'.heap) ∧
          (∃ least, Builtin.callGlobal .min [.list r] m = .ok least m ∧
            sorted.head? = some least) ∧
          ∃ greatest last, Builtin.callGlobal .max [.list r] m = .ok greatest m ∧
            sorted.getLast? = some last ∧ m.Holds .eq greatest last := by
  refine ⟨m.ordersTotally, ?_⟩
  intro r hne horderable hpairwise
  have hitems : ∀ v ∈ (m.heap.list r).toList, m.heap.Orderable v :=
    fun v hv => horderable v (Array.mem_toList_iff.mp hv)
  have hc : m.heap.Comparable (m.heap.list r).toList := by
    apply Heap.comparable_of_pairwise hitems
    apply hpairwise.imp_of_mem
    rintro a b ha hb ⟨o, ho⟩
    rw [Machine.run_order_eq_ok] at ho
    obtain ⟨x, rfl, -⟩ := m.heap.orderedOn_order.swap a b o (hitems a ha) (hitems b hb) ho
    exact ⟨x, ho⟩
  have hne' : (m.heap.list r).toList ≠ [] := by
    intro h
    exact hne (Array.toList_eq_nil_iff.mp h)
  obtain ⟨sorted, hsort, hperm, hascending, hranks⟩ :=
    Sorting.sort_sorts hc.ranks (fun _ _ ha hb => hc.precedes_eq ha hb) fun _ ha => ha
  refine ⟨sorted, hc.isSorting hperm hascending hranks, ?_,
    Builtin.callGlobal_min_sorted hc rfl hne' hperm hascending hranks,
    Builtin.callGlobal_max_sorted hc rfl hne' hperm hascending⟩
  refine ⟨_, _, Builtin.callGlobal_sorted hsort, ?_, .addList _ _⟩
  rw [Heap.list, Heap.addList, Array.getElem?_push_size]
  rfl

/-- Of two equal tuples the one that comes first in the list stays in front, and a tuple comes before
those that go on after it. -/
theorem order_is_total_and_lists_sort_tuples :
    let m : Machine := { heap := {
      tuples := #[#[.int 1], #[.int 0], #[.int 1], #[.int 1, .bool true]]
      lists := #[#[.tuple ⟨0⟩, .tuple ⟨1⟩, .tuple ⟨2⟩]] } }
    let sorted : List Value := [.tuple ⟨1⟩, .tuple ⟨0⟩, .tuple ⟨2⟩]
    m.Holds .lt (.tuple ⟨1⟩) (.tuple ⟨3⟩) ∧
      m.IsSorting (m.heap.list ⟨0⟩).toList sorted ∧
      (∃ s m', Builtin.callGlobal .sorted [.list ⟨0⟩] m = .ok (.list s) m' ∧
        m'.heap.list s = sorted.toArray) ∧
      Builtin.callGlobal .min [.list ⟨0⟩] m = .ok (.tuple ⟨1⟩) m ∧
      ∃ greatest, Builtin.callGlobal .max [.list ⟨0⟩] m = .ok greatest m ∧
        m.Holds .eq greatest (.tuple ⟨2⟩) := by
  intro m sorted
  have htuple (i : Nat) (n : Int64) (hcell : m.heap.tuple ⟨i⟩ = #[.int n]) :
      m.heap.Orderable (.tuple ⟨i⟩) := by
    apply Heap.Orderable.tuple
    rw [hcell]
    intro v hv
    rw [Array.mem_singleton.mp hv]
    exact .int n
  have hlast : m.heap.Orderable (.tuple ⟨3⟩) := by
    apply Heap.Orderable.tuple
    change ∀ v ∈ #[.int 1, .bool true], m.heap.Orderable v
    intro v hv
    simp only [Array.mem_def, List.mem_cons, List.not_mem_nil, or_false] at hv
    rcases hv with rfl | rfl
    · exact .int 1
    · exact .bool true
  have hitems : ∀ v ∈ m.heap.list ⟨0⟩, m.heap.Orderable v := by
    change ∀ v ∈ #[.tuple ⟨0⟩, .tuple ⟨1⟩, .tuple ⟨2⟩], m.heap.Orderable v
    intro v hv
    simp only [Array.mem_def, List.mem_cons, List.not_mem_nil, or_false] at hv
    rcases hv with rfl | rfl | rfl
    · exact htuple 0 1 rfl
    · exact htuple 1 0 rfl
    · exact htuple 2 1 rfl
  have hpairwise : (m.heap.list ⟨0⟩).toList.Pairwise
      fun a b => ∃ o, Run.order .lt a b m = .ok o m := by
    change [Value.tuple ⟨0⟩, .tuple ⟨1⟩, .tuple ⟨2⟩].Pairwise _
    simp only [List.pairwise_cons, List.mem_cons, List.not_mem_nil, or_false, forall_eq_or_imp,
      forall_eq]
    exact ⟨⟨⟨_, rfl⟩, _, rfl⟩, ⟨_, rfl⟩, fun _ => False.elim, .nil⟩
  obtain ⟨htotal, hsort⟩ := order_is_total_and_lists_sort m
  obtain ⟨sorted', hsorting, ⟨s, m', hsorted, hcell, -⟩, ⟨least, hmin, hhead⟩, greatest, last, hmax,
    hlast', heq⟩ := hsort ⟨0⟩ (by decide) hitems hpairwise
  have hsame : sorted' = sorted := by
    have hrun : Builtin.callGlobal .sorted [.list ⟨0⟩] m = .ok (.list ⟨1⟩)
      { m with heap := (m.heap.addList sorted.toArray).2 } := rfl
    obtain ⟨hs, hm⟩ := EStateM.Result.ok.inj (hsorted.symm.trans hrun)
    subst hm
    cases hs
    exact congrArg Array.toList hcell.symm
  subst hsame
  have hleast : least = .tuple ⟨1⟩ := Option.some.inj hhead.symm
  have hgreatest : last = .tuple ⟨2⟩ := Option.some.inj hlast'.symm
  refine ⟨?_, hsorting, ⟨s, m', hsorted, hcell⟩, hleast ▸ hmin, greatest, hmax, hgreatest ▸ heq⟩
  exact htotal.trans _ (.tuple ⟨0⟩) _ (htuple 1 0 rfl) (htuple 0 1 rfl) hlast rfl rfl

end Functions

end StagedScript
