import StagedScript.Machine.Operator
import StagedScript.Proofs.Machine.Keeps

/-!
# Operators keep machines sound

Each operator of the language leads from a sound machine to a sound one, and
the value that it gives is one of the machine.
-/

namespace StagedScript

open Run
open Syntax (BinaryOp UnaryOp)

variable {guard : Guard} {m : Machine}

theorem keeps_iterate (hm : m.Sound guard) (v : Value) :
    Keeps guard m (iterate v) fun items m' => ∀ item ∈ items, m'.Owns guard item := by
  unfold iterate
  refine keeps_getHeap_bind ?_
  split
  · exact keeps_pure hm fun item hi => hm.heap.list_within (by simpa using hi)
  · exact keeps_pure hm fun item hi => hm.heap.tuple_within (by simpa using hi)
  · refine keeps_pure hm fun item hi => ?_
    obtain ⟨c, -, rfl⟩ := List.mem_map.mp hi
    exact Machine.owns_constant _
  · refine keeps_pure hm fun item hi => ?_
    obtain ⟨e, he, rfl⟩ := List.mem_map.mp hi
    exact (hm.heap.dict_within (Array.mem_toList_iff.mp he)).1
  · exact keeps_fault hm _

theorem keeps_checkHashable (hm : m.Sound guard) (v : Value) :
    Keeps guard m (checkHashable v) fun _ m' => m' = m := by
  unfold checkHashable
  refine keeps_getHeap_bind ?_
  split
  · exact keeps_pure hm rfl
  · exact keeps_fault hm _

theorem keeps_equal (hm : m.Sound guard) (a b : Value) :
    Keeps guard m (Run.equal a b) fun result m' => result = m.heap.equal a b ∧ m' = m :=
  keeps_getHeap_bind (keeps_pure hm ⟨rfl, rfl⟩)

theorem keeps_order (hm : m.Sound guard) (op : BinaryOp) (a b : Value) :
    Keeps guard m (order op a b) fun _ _ => True := by
  unfold order
  refine keeps_getHeap_bind ?_
  split
  · exact keeps_pure hm trivial
  · exact keeps_fault hm _

theorem keeps_contains (hm : m.Sound guard) (container needle : Value) :
    Keeps guard m (contains container needle) fun _ _ => True := by
  unfold contains
  refine keeps_getHeap_bind ?_
  split
  · split
    · exact keeps_pure hm trivial
    · exact keeps_fault hm _
  · exact keeps_pure hm trivial
  · exact keeps_pure hm trivial
  · exact keeps_bind (keeps_checkHashable hm _) fun _ _ hm' _ _ => keeps_pure hm' trivial
  · exact keeps_fault hm _

theorem keeps_repeated (hm : m.Sound guard) {items : Array Value} (times : Int64)
    (hi : ∀ v ∈ items, m.Owns guard v) :
    Keeps guard m (repeated items times) fun result m' => ∀ v ∈ result, m'.Owns guard v := by
  unfold repeated
  refine keeps_bind (keeps_ofExcept hm (Q := fun _ _ => True) fun _ _ => trivial) ?_
  intro count m' hm' hreach _
  refine keeps_pure hm' fun v hv => hreach.owns (hi v ?_)
  obtain ⟨copy, hcopy, hmem⟩ := Array.mem_flatten.mp hv
  exact (Array.mem_replicate.mp hcopy).2 ▸ hmem

theorem owns_joined {as bs : Array Value} (ha : ∀ v ∈ as, m.Owns guard v)
    (hb : ∀ v ∈ bs, m.Owns guard v) : ∀ v ∈ joined as bs, m.Owns guard v := by
  intro v hv
  rw [joined_eq, Array.mem_append] at hv
  exact hv.elim (ha v) (hb v)

theorem keeps_arithmetic (hm : m.Sound guard) (op : BinaryOp) (a b : Value) :
    Keeps guard m (arithmetic op a b) fun v m' => m'.Owns guard v := by
  have hlist (r : Ref .list) : ∀ v ∈ m.heap.list r, m.Owns guard v :=
    fun v hv => hm.heap.list_within hv
  have htuple (r : Ref .tuple) : ∀ v ∈ m.heap.tuple r, m.Owns guard v :=
    fun v hv => hm.heap.tuple_within hv
  have htext (s : String) (n : Int64) :
      Keeps guard m
        (do
          let count ← ofExcept (repeatCount s.utf8ByteSize n)
          return .string (Text.repeated s count))
        fun v m' => m'.Owns guard v :=
    keeps_bind (keeps_ofExcept hm (Q := fun _ _ => True) fun _ _ => trivial)
      fun _ _ hm' _ _ => keeps_pure hm' trivial
  have hlists (r : Ref .list) (n : Int64) :
      Keeps guard m (do newList (← repeated (m.heap.list r) n)) fun v m' => m'.Owns guard v :=
    keeps_bind (keeps_repeated hm n (hlist r)) fun _ _ hm' _ hi => keeps_newList hm' hi
  have htuples (r : Ref .tuple) (n : Int64) :
      Keeps guard m (do newTuple (← repeated (m.heap.tuple r) n)) fun v m' => m'.Owns guard v :=
    keeps_bind (keeps_repeated hm n (htuple r)) fun _ _ hm' _ hi => keeps_newTuple hm' hi
  unfold arithmetic
  refine keeps_getHeap_bind ?_
  split
  · exact keeps_pure hm trivial
  · exact keeps_newList hm (owns_joined (hlist _) (hlist _))
  · exact keeps_newTuple hm (owns_joined (htuple _) (htuple _))
  · exact htext _ _
  · exact htext _ _
  · exact hlists _ _
  · exact hlists _ _
  · exact htuples _ _
  · exact htuples _ _
  · split
    · exact keeps_bind (keeps_ofExcept hm (Q := fun _ _ => True) fun _ _ => trivial)
        fun _ _ hm' _ _ => keeps_pure hm' trivial
    · exact keeps_fault hm _
  · exact keeps_fault hm _

theorem keeps_binary (hm : m.Sound guard) (op : BinaryOp) (a b : Value) :
    Keeps guard m (binary op a b) fun v m' => m'.Owns guard v := by
  unfold binary
  split
  · exact keeps_bind (keeps_equal hm a b) fun _ _ hm' _ _ => keeps_pure hm' trivial
  · exact keeps_bind (keeps_equal hm a b) fun _ _ hm' _ _ => keeps_pure hm' trivial
  iterate 4
    exact keeps_bind (keeps_order hm _ a b) fun _ _ hm' _ _ => keeps_pure hm' trivial
  · exact keeps_bind (keeps_contains hm b a) fun _ _ hm' _ _ => keeps_pure hm' trivial
  · exact keeps_bind (keeps_contains hm b a) fun _ _ hm' _ _ => keeps_pure hm' trivial
  · exact keeps_arithmetic hm op a b

theorem keeps_unary (hm : m.Sound guard) (op : UnaryOp) (v : Value) :
    Keeps guard m (unary op v) fun result m' => m'.Owns guard result := by
  unfold unary
  split
  · exact keeps_bind (keeps_isTrue hm _) fun _ _ hm' _ _ => keeps_pure hm' trivial
  · split
    · exact keeps_bind (keeps_ofExcept hm (Q := fun _ _ => True) fun _ _ => trivial)
        fun _ _ hm' _ _ => keeps_pure hm' trivial
    · exact keeps_fault hm _
  · exact keeps_fault hm _

/-! ## Items -/

theorem keeps_position (hm : m.Sound guard) (what : Indexed) (length : Nat) (index : Value) :
    Keeps guard m (position what length index) fun _ _ => True := by
  unfold position
  split
  · next n =>
    by_cases h : 0 ≤ (if n.toInt < 0 then n.toInt + length else n.toInt) ∧
        (if n.toInt < 0 then n.toInt + length else n.toInt) < length
    · dsimp only
      rw [dif_pos h]
      exact keeps_pure hm trivial
    · dsimp only
      rw [dif_neg h]
      exact keeps_fault hm _
  · exact keeps_fault hm _

theorem keeps_itemAt (hm : m.Sound guard) (what : Indexed) {items : Array Value}
    (index : Value) (hi : ∀ v ∈ items, m.Owns guard v) :
    Keeps guard m (itemAt what items index) fun v m' => m'.Owns guard v :=
  keeps_bind (keeps_position hm what items.size index) fun _ _ hm' hreach _ =>
    keeps_pure hm' (hreach.owns (hi _ (Array.getElem_mem _)))

theorem keeps_characterAt (hm : m.Sound guard) (characters : List Char) (index : Value) :
    Keeps guard m (characterAt characters index) fun v m' => m'.Owns guard v :=
  keeps_bind (keeps_position hm .string characters.length index) fun _ _ hm' _ _ =>
    keeps_pure hm' trivial

theorem owns_valueAt? (hm : m.Sound guard) {h : Heap} {key v : Value} {r : Ref .dict}
    (hv : h.valueAt? key (m.heap.dict r) = some v) : m.Owns guard v := by
  obtain ⟨e, he, rfl⟩ := Option.map_eq_some_iff.mp hv
  exact (hm.heap.dict_within (Array.mem_of_find?_eq_some he)).2

theorem keeps_subscript (hm : m.Sound guard) {target index : Value}
    (ht : m.Owns guard target) (hi : m.Owns guard index) :
    Keeps guard m (subscript target index) fun v m' => m'.Owns guard v := by
  unfold subscript
  refine keeps_getHeap_bind ?_
  split
  · exact keeps_itemAt hm .list index fun v hv => hm.heap.list_within hv
  · exact keeps_itemAt hm .tuple index fun v hv => hm.heap.tuple_within hv
  · exact keeps_characterAt hm _ index
  · refine keeps_bind (keeps_checkHashable hm index) ?_
    rintro _ m' hm' - rfl
    split
    · next hv => exact keeps_pure hm' (owns_valueAt? hm' hv)
    · exact keeps_bind (keeps_view hm' index) fun _ _ hm'' _ _ => keeps_fault hm'' _
  · split
    · exact keeps_pure hm hi
    · refine keeps_newTuple hm fun v hv => ?_
      obtain rfl : v = index := by simpa using hv
      exact hi
  · exact keeps_fault hm _

theorem within_insertEntry {n : Extent} {h : Heap} {key value : Value}
    {entries : Array (Value × Value)} (hk : key.Within guard n) (hv : value.Within guard n)
    (he : ∀ e ∈ entries, e.1.Within guard n ∧ e.2.Within guard n) :
    ∀ e ∈ h.insertEntry key value entries, e.1.Within guard n ∧ e.2.Within guard n := by
  intro e hmem
  unfold Heap.insertEntry at hmem
  split at hmem
  · obtain ⟨i, hi, rfl⟩ := Array.mem_iff_getElem.mp hmem
    rw [Array.getElem_modify]
    rw [Array.size_modify] at hi
    split
    · exact ⟨(he _ (Array.getElem_mem hi)).1, hv⟩
    · exact he _ (Array.getElem_mem hi)
  · rcases Array.mem_push.mp hmem with hmem | rfl
    · exact he e hmem
    · exact ⟨hk, hv⟩

theorem keeps_setItem (hm : m.Sound guard) {target index value : Value}
    (hi : m.Owns guard index) (hv : m.Owns guard value) :
    Keeps guard m (setItem target index value) fun _ _ => True := by
  unfold setItem
  refine keeps_getHeap_bind ?_
  split
  · next r =>
    refine keeps_bind (keeps_position hm .list _ index) ?_
    intro place m' hm' hreach _
    refine (keeps_modifyHeap hm' (Heap.sound_updateList hm'.heap ?_)
      (Heap.grows_of_eq rfl rfl rfl rfl)).imp fun _ _ _ _ _ => trivial
    intro v hmem
    rcases Array.mem_or_eq_of_mem_setIfInBounds hmem with hmem | rfl
    · exact hm'.heap.list_within hmem
    · exact hreach.owns hv
  · next r =>
    refine keeps_bind (keeps_checkHashable hm index) ?_
    rintro _ m' hm' - rfl
    refine (keeps_modifyHeap hm' (Heap.sound_setDict hm'.heap ?_)
      (Heap.grows_of_eq rfl rfl rfl rfl)).imp fun _ _ _ _ _ => trivial
    exact within_insertEntry hi hv fun e he => hm'.heap.dict_within he
  · exact keeps_fault hm _

theorem keeps_member (hm : m.Sound guard) {target : Value} (field : String)
    (ht : m.Owns guard target) :
    Keeps guard m (member target field) fun v m' => m'.Owns guard v := by
  unfold member
  refine keeps_getHeap_bind ?_
  split
  · split
    · next hv => exact keeps_pure hm (hm.heap.frame_within hv)
    · exact keeps_fault hm _
  · split
    · exact keeps_pure hm trivial
    · exact keeps_fault hm _
  · split
    · exact keeps_pure hm trivial
    · exact keeps_fault hm _
  · split
    · refine keeps_newTuple hm fun v hv => ?_
      obtain rfl : v = _ := by simpa using hv
      trivial
    · exact keeps_fault hm _
  · split
    · exact keeps_pure hm ht
    · exact keeps_fault hm _

end StagedScript
