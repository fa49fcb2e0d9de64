import Mathlib.Tactic.ByContra
import StagedScript.Machine.Operator

/-!
# The order of values

Whole numbers, truth values and strings are ordered within their type, and so are
tuples and lists of them: by the first items that differ.  Where two such values
have an order at all, it is a total one that agrees with equality.  This is shown
depth by depth: an order on items is one on sequences of them.
-/

namespace StagedScript

/-- On the values with a property the order says the opposite the other way round, says equal where
equality does, and is transitive.  Whether two values have an order, and which, is the same for
equal values. -/
structure OrderedOn {α ε : Type} (p : α → Prop) (equal : α → α → Bool)
    (order : α → α → Except ε (Option Ordering)) : Prop where
  refl : ∀ a, p a → order a a = .ok (some .eq)
  equal_iff : ∀ a b, p a → p b → (equal a b = true ↔ order a b = .ok (some .eq))
  swap : ∀ a b o, p a → p b → order a b = .ok o →
    ∃ x : Ordering, o = some x ∧ order b a = .ok (some x.swap)
  congr : ∀ a b c, p a → p b → p c → equal a b = true → order a c = order b c
  trans : ∀ a b c, p a → p b → p c → order a b = .ok (some .lt) → order b c = .ok (some .lt) →
    order a c = .ok (some .lt)

namespace OrderedOn

variable {α β ε : Type} {p : α → Prop} {equal : α → α → Bool}
  {order : α → α → Except ε (Option Ordering)} {a b c : α} {x : Ordering}

theorem equal_self (ho : OrderedOn p equal order) (ha : p a) : equal a a = true :=
  (ho.equal_iff a a ha ha).mpr (ho.refl a ha)

theorem order_swap (ho : OrderedOn p equal order) (ha : p a) (hb : p b)
    (hab : order a b = .ok (some x)) : order b a = .ok (some x.swap) := by
  obtain ⟨y, hy, hba⟩ := ho.swap a b _ ha hb hab
  rw [hba, Option.some.inj hy]

theorem equal_symm (ho : OrderedOn p equal order) (ha : p a) (hb : p b)
    (hab : equal a b = true) : equal b a = true :=
  (ho.equal_iff b a hb ha).mpr (ho.order_swap ha hb ((ho.equal_iff a b ha hb).mp hab))

theorem equal_comm (ho : OrderedOn p equal order) (ha : p a) (hb : p b) :
    equal a b = equal b a :=
  Bool.eq_iff_iff.mpr ⟨ho.equal_symm ha hb, ho.equal_symm hb ha⟩

theorem equal_congr (ho : OrderedOn p equal order) (ha : p a) (hb : p b) (hc : p c)
    (hab : equal a b = true) : equal a c = equal b c := by
  rw [Bool.eq_iff_iff, ho.equal_iff a c ha hc, ho.equal_iff b c hb hc,
    ho.congr a b c ha hb hc hab]

theorem congr_right (ho : OrderedOn p equal order) (ha : p a) (hb : p b) (hc : p c)
    (hbc : equal b c = true) (hab : order a b = .ok (some x)) : order a c = .ok (some x) := by
  have hca : order c a = .ok (some x.swap) := by
    rw [← ho.congr b c a hb hc ha hbc]
    exact ho.order_swap ha hb hab
  have hac := ho.order_swap hc ha hca
  rwa [Ordering.swap_swap] at hac

theorem equal_eq_false (ho : OrderedOn p equal order) (ha : p a) (hb : p b)
    (hab : order a b = .ok (some x)) (hx : x ≠ .eq) : equal a b = false := by
  apply Bool.eq_false_iff.mpr
  intro hequal
  rw [(ho.equal_iff a b ha hb).mp hequal] at hab
  exact hx (Option.some.inj (Except.ok.inj hab)).symm

/-! ## Changing what is ordered -/

/-- An order of views is one of the values that are viewed. -/
theorem comap (ho : OrderedOn p equal order) (f : β → α) :
    OrderedOn (fun b => p (f b)) (fun a b => equal (f a) (f b)) fun a b => order (f a) (f b) where
  refl a := ho.refl (f a)
  equal_iff a b := ho.equal_iff (f a) (f b)
  swap a b o := ho.swap (f a) (f b) o
  congr a b c := ho.congr (f a) (f b) (f c)
  trans a b c := ho.trans (f a) (f b) (f c)

/-- Values that are all of one form are ordered like what they are formed from. -/
theorem of_form {q : β → Prop} {equal' : β → β → Bool} {order' : β → β → Except ε (Option Ordering)}
    (ho : OrderedOn p equal order) (f : α → β) (hform : ∀ b, q b → ∃ a, p a ∧ b = f a)
    (hequal : ∀ a b, p a → p b → equal' (f a) (f b) = equal a b)
    (horder : ∀ a b, order' (f a) (f b) = order a b) : OrderedOn q equal' order' where
  refl b hb := by
    obtain ⟨a, ha, rfl⟩ := hform b hb
    rw [horder]
    exact ho.refl a ha
  equal_iff b b' hb hb' := by
    obtain ⟨a, ha, rfl⟩ := hform b hb
    obtain ⟨a', ha', rfl⟩ := hform b' hb'
    rw [horder, hequal a a' ha ha']
    exact ho.equal_iff a a' ha ha'
  swap b b' o hb hb' h := by
    obtain ⟨a, ha, rfl⟩ := hform b hb
    obtain ⟨a', ha', rfl⟩ := hform b' hb'
    rw [horder] at h ⊢
    exact ho.swap a a' o ha ha' h
  congr b b' b'' hb hb' hb'' h := by
    obtain ⟨a, ha, rfl⟩ := hform b hb
    obtain ⟨a', ha', rfl⟩ := hform b' hb'
    obtain ⟨a'', ha'', rfl⟩ := hform b'' hb''
    rw [hequal a a' ha ha'] at h
    rw [horder, horder]
    exact ho.congr a a' a'' ha ha' ha'' h
  trans b b' b'' hb hb' hb'' h h' := by
    obtain ⟨a, ha, rfl⟩ := hform b hb
    obtain ⟨a', ha', rfl⟩ := hform b' hb'
    obtain ⟨a'', ha'', rfl⟩ := hform b'' hb''
    rw [horder] at h h' ⊢
    exact ho.trans a a' a'' ha ha' ha'' h h'

/-- Orders on several kinds of values are one on all of them if values of different kinds differ and
have no order, for a reason that only depends on the kinds. -/
theorem of_kinds {κ : Type} (kind : α → κ) (reason : κ → κ → ε)
    (hkind : ∀ a, p a → OrderedOn (fun b => p b ∧ kind b = kind a) equal order)
    (hother : ∀ a b, p a → p b → kind a ≠ kind b →
      equal a b = false ∧ order a b = .error (reason (kind a) (kind b))) :
    OrderedOn p equal order := by
  have hkind_of_equal (a b : α) (ha : p a) (hb : p b) (h : equal a b = true) :
      kind b = kind a := by
    by_contra hne
    rw [(hother a b ha hb (Ne.symm hne)).1] at h
    exact Bool.noConfusion h
  have hkind_of_order (a b : α) (o : Option Ordering) (ha : p a) (hb : p b)
      (h : order a b = .ok o) : kind b = kind a := by
    by_contra hne
    rw [(hother a b ha hb (Ne.symm hne)).2] at h
    exact nomatch h
  constructor
  · intro a ha
    exact (hkind a ha).refl a ⟨ha, rfl⟩
  · intro a b ha hb
    by_cases hsame : kind b = kind a
    · exact (hkind a ha).equal_iff a b ⟨ha, rfl⟩ ⟨hb, hsame⟩
    · obtain ⟨hequal, horder⟩ := hother a b ha hb (Ne.symm hsame)
      simp [hequal, horder]
  · intro a b o ha hb h
    exact (hkind a ha).swap a b o ⟨ha, rfl⟩ ⟨hb, hkind_of_order a b o ha hb h⟩ h
  · intro a b c ha hb hc h
    have hsame := hkind_of_equal a b ha hb h
    by_cases hc' : kind c = kind a
    · exact (hkind a ha).congr a b c ⟨ha, rfl⟩ ⟨hb, hsame⟩ ⟨hc, hc'⟩ h
    · have hc'' : kind c ≠ kind b := fun h => hc' (h.trans hsame)
      rw [(hother a c ha hc (Ne.symm hc')).2, (hother b c hb hc (Ne.symm hc'')).2, hsame]
  · intro a b c ha hb hc hab hbc
    have hb' := hkind_of_order a b _ ha hb hab
    have hc' := (hkind_of_order b c _ hb hc hbc).trans hb'
    exact (hkind a ha).trans a b c ⟨ha, rfl⟩ ⟨hb, hb'⟩ ⟨hc, hc'⟩ hab hbc

end OrderedOn

/-- A lawful comparison is an order. -/
theorem orderedOn_compare {α ε : Type} [BEq α] [LawfulBEq α] [Ord α] [Std.TransOrd α]
    [Std.LawfulEqOrd α] :
    OrderedOn (ε := ε) (fun _ : α => True) (· == ·) fun a b => .ok (some (compare a b)) where
  refl a _ := by rw [Std.compare_self]
  equal_iff a b _ _ := by rw [beq_iff_eq, ← Std.compare_eq_iff_eq, Except.ok.injEq,
    Option.some.injEq]
  swap a b o _ _ h := by
    refine ⟨compare a b, (Except.ok.inj h).symm, ?_⟩
    rw [← Std.OrientedOrd.eq_swap]
  congr a b c _ _ _ h := by rw [eq_of_beq h]
  trans a b c _ _ _ hab hbc := by
    simp only [Except.ok.injEq, Option.some.injEq] at hab hbc ⊢
    exact Std.TransCmp.lt_trans hab hbc

/-- Where all values are equal they are ordered. -/
theorem orderedOn_all_equal {α ε : Type} {p : α → Prop} :
    OrderedOn (ε := ε) p (fun _ _ => true) fun _ _ => .ok (some .eq) where
  refl _ _ := rfl
  equal_iff _ _ _ _ := iff_of_true rfl rfl
  swap _ _ _ _ _ h := ⟨.eq, (Except.ok.inj h).symm, rfl⟩
  congr _ _ _ _ _ _ _ := rfl
  trans _ _ _ _ _ _ h _ := h

/-! ## Sequences -/

section Sequences

variable {α ε : Type} {p : α → Prop} {equal : α → α → Bool}
  {order : α → α → Except ε (Option Ordering)} {a b : α} {as bs cs : List α}

theorem sequenceOrder_of_equal (hab : equal a b = true) :
    sequenceOrder equal order (a :: as) (b :: bs) = sequenceOrder equal order as bs :=
  if_pos hab

theorem sequenceOrder_of_ne (hab : equal a b = false) :
    sequenceOrder equal order (a :: as) (b :: bs) = order a b :=
  if_neg (Bool.eq_false_iff.mp hab)

namespace OrderedOn

theorem sequence_refl (ho : OrderedOn p equal order) (has : ∀ a ∈ as, p a) :
    sequenceOrder equal order as as = .ok (some .eq) := by
  induction as with
  | nil => rfl
  | cons a as ih =>
    rw [List.forall_mem_cons] at has
    rw [sequenceOrder_of_equal (ho.equal_self has.1)]
    exact ih has.2

theorem sequence_equal_iff (ho : OrderedOn p equal order) (has : ∀ a ∈ as, p a)
    (hbs : ∀ b ∈ bs, p b) :
    as.isEqv bs equal = true ↔ sequenceOrder equal order as bs = .ok (some .eq) := by
  induction as generalizing bs with
  | nil => cases bs <;> simp [List.isEqv, sequenceOrder]
  | cons a as ih =>
    cases bs with
    | nil => simp [List.isEqv, sequenceOrder]
    | cons b bs =>
      rw [List.forall_mem_cons] at has hbs
      cases hab : equal a b with
      | true =>
        rw [sequenceOrder_of_equal hab, List.isEqv, hab, Bool.true_and]
        exact ih has.2 hbs.2
      | false =>
        rw [sequenceOrder_of_ne hab, List.isEqv, hab, Bool.false_and,
          ← ho.equal_iff a b has.1 hbs.1, hab]

theorem sequence_swap (ho : OrderedOn p equal order) (has : ∀ a ∈ as, p a) (hbs : ∀ b ∈ bs, p b)
    {o : Option Ordering} (h : sequenceOrder equal order as bs = .ok o) :
    ∃ x : Ordering, o = some x ∧ sequenceOrder equal order bs as = .ok (some x.swap) := by
  induction as generalizing bs with
  | nil =>
    cases bs with
    | nil => exact ⟨.eq, (Except.ok.inj h).symm, rfl⟩
    | cons b bs => exact ⟨.lt, (Except.ok.inj h).symm, rfl⟩
  | cons a as ih =>
    cases bs with
    | nil => exact ⟨.gt, (Except.ok.inj h).symm, rfl⟩
    | cons b bs =>
      rw [List.forall_mem_cons] at has hbs
      have hcomm := ho.equal_comm has.1 hbs.1
      cases hab : equal a b with
      | true =>
        rw [sequenceOrder_of_equal hab] at h
        rw [sequenceOrder_of_equal (hcomm ▸ hab)]
        exact ih has.2 hbs.2 h
      | false =>
        rw [sequenceOrder_of_ne hab] at h
        rw [sequenceOrder_of_ne (hcomm ▸ hab)]
        exact ho.swap a b o has.1 hbs.1 h

theorem sequence_congr (ho : OrderedOn p equal order) (has : ∀ a ∈ as, p a) (hbs : ∀ b ∈ bs, p b)
    (hcs : ∀ c ∈ cs, p c) (h : as.isEqv bs equal = true) :
    sequenceOrder equal order as cs = sequenceOrder equal order bs cs := by
  induction as generalizing bs cs with
  | nil =>
    cases bs with
    | nil => rfl
    | cons b bs => exact Bool.noConfusion h
  | cons a as ih =>
    cases bs with
    | nil => exact Bool.noConfusion h
    | cons b bs =>
      obtain ⟨hab, hrest⟩ := Bool.and_eq_true_iff.mp h
      cases cs with
      | nil => rfl
      | cons c cs =>
        rw [List.forall_mem_cons] at has hbs hcs
        have hequal := ho.equal_congr has.1 hbs.1 hcs.1 hab
        cases hac : equal a c with
        | true =>
          rw [sequenceOrder_of_equal hac, sequenceOrder_of_equal (hequal ▸ hac)]
          exact ih has.2 hbs.2 hcs.2 hrest
        | false =>
          rw [sequenceOrder_of_ne hac, sequenceOrder_of_ne (hequal ▸ hac)]
          exact ho.congr a b c has.1 hbs.1 hcs.1 hab

/-- The earlier of the two places that decide also decides between the outer sequences. -/
theorem sequence_trans (ho : OrderedOn p equal order) (has : ∀ a ∈ as, p a) (hbs : ∀ b ∈ bs, p b)
    (hcs : ∀ c ∈ cs, p c) (hab : sequenceOrder equal order as bs = .ok (some .lt))
    (hbc : sequenceOrder equal order bs cs = .ok (some .lt)) :
    sequenceOrder equal order as cs = .ok (some .lt) := by
  induction as generalizing bs cs with
  | nil =>
    cases cs with
    | nil => cases bs <;> exact nomatch hbc
    | cons c cs => rfl
  | cons a as ih =>
    cases bs with
    | nil => exact nomatch hab
    | cons b bs =>
      cases cs with
      | nil => exact nomatch hbc
      | cons c cs =>
        rw [List.forall_mem_cons] at has hbs hcs
        have hlt_ne {a b : α} (ha : p a) (hb : p b) (h : order a b = .ok (some .lt)) :
            equal a b = false := ho.equal_eq_false ha hb h Ordering.noConfusion
        cases heab : equal a b with
        | true =>
          have hcongr := ho.congr a b c has.1 hbs.1 hcs.1 heab
          have hequal := ho.equal_congr has.1 hbs.1 hcs.1 heab
          rw [sequenceOrder_of_equal heab] at hab
          cases hebc : equal b c with
          | true =>
            rw [sequenceOrder_of_equal hebc] at hbc
            rw [sequenceOrder_of_equal (hequal.trans hebc)]
            exact ih has.2 hbs.2 hcs.2 hab hbc
          | false =>
            rw [sequenceOrder_of_ne hebc] at hbc
            rw [sequenceOrder_of_ne (hequal.trans hebc), hcongr]
            exact hbc
        | false =>
          rw [sequenceOrder_of_ne heab] at hab
          have hac : order a c = .ok (some .lt) := by
            cases hebc : equal b c with
            | true => exact ho.congr_right has.1 hbs.1 hcs.1 hebc hab
            | false =>
              rw [sequenceOrder_of_ne hebc] at hbc
              exact ho.trans a b c has.1 hbs.1 hcs.1 hab hbc
          rw [sequenceOrder_of_ne (hlt_ne has.1 hcs.1 hac)]
          exact hac

/-- An order on items is one on sequences of them. -/
theorem sequence (ho : OrderedOn p equal order) :
    OrderedOn (fun as => ∀ a ∈ as, p a) (fun as bs => as.isEqv bs equal)
      (sequenceOrder equal order) where
  refl _ has := ho.sequence_refl has
  equal_iff _ _ has hbs := ho.sequence_equal_iff has hbs
  swap _ _ _ has hbs h := ho.sequence_swap has hbs h
  congr _ _ _ has hbs hcs h := ho.sequence_congr has hbs hcs h
  trans _ _ _ has hbs hcs hab hbc := ho.sequence_trans has hbs hcs hab hbc

end OrderedOn

end Sequences

/-! ## Values -/

namespace Heap

variable {h : Heap}

/-- The value is a whole number, a truth value or a string, or a tuple or a list of such values. -/
inductive Orderable (h : Heap) : Value → Prop
  | int (n : Int64) : Orderable h (.int n)
  | bool (b : Bool) : Orderable h (.bool b)
  | string (s : String) : Orderable h (.string s)
  | tuple (r : Ref .tuple) (items : ∀ v ∈ h.tuple r, Orderable h v) : Orderable h (.tuple r)
  | list (r : Ref .list) (items : ∀ v ∈ h.list r, Orderable h v) : Orderable h (.list r)

/-- Values of a type that are made from nothing but a scalar are ordered like the scalars. -/
theorem orderedOn_scalars {α : Type} [BEq α] [LawfulBEq α] [Ord α] [Std.TransOrd α]
    [Std.LawfulEqOrd α] {n : Nat} {type : String} (f : α → Value)
    (hform : ∀ w, h.Orderable w → w.typeName = type → ∃ a, w = f a)
    (hequal : ∀ a b, h.equalWithin n (f a) (f b) = (a == b))
    (horder : ∀ a b, h.orderWithin n (f a) (f b) = .ok (some (compare a b))) :
    OrderedOn (fun w => h.Orderable w ∧ w.typeName = type) (h.equalWithin n) (h.orderWithin n) := by
  apply orderedOn_compare.of_form f
  · rintro w ⟨hw, htype⟩
    obtain ⟨a, rfl⟩ := hform w hw htype
    exact ⟨a, trivial, rfl⟩
  · intro a b _ _
    exact hequal a b
  · exact horder

/-- Values of one type that can be ordered are ordered within any depth if tuples and lists are. -/
theorem orderedOn_of_types {n : Nat}
    (htuple : OrderedOn (fun r => ∀ v ∈ (h.tuple r).toList, h.Orderable v)
      (fun r s => h.equalWithin n (.tuple r) (.tuple s))
      fun r s => h.orderWithin n (.tuple r) (.tuple s))
    (hlist : OrderedOn (fun r => ∀ v ∈ (h.list r).toList, h.Orderable v)
      (fun r s => h.equalWithin n (.list r) (.list s))
      fun r s => h.orderWithin n (.list r) (.list s)) :
    OrderedOn h.Orderable (h.equalWithin n) (h.orderWithin n) := by
  apply OrderedOn.of_kinds Value.typeName Datum.Unordered.mk
  · intro v hv
    cases hv with
    | int =>
      apply orderedOn_scalars Value.int
      · intro w hw htype
        cases hw with
        | int n => exact ⟨n, rfl⟩
        | _ => exact absurd htype (of_decide_eq_false rfl)
      all_goals cases n <;> exact fun _ _ => rfl
    | bool =>
      apply orderedOn_scalars Value.bool
      · intro w hw htype
        cases hw with
        | bool b => exact ⟨b, rfl⟩
        | _ => exact absurd htype (of_decide_eq_false rfl)
      all_goals cases n <;> exact fun _ _ => rfl
    | string =>
      apply orderedOn_scalars Value.string
      · intro w hw htype
        cases hw with
        | string s => exact ⟨s, rfl⟩
        | _ => exact absurd htype (of_decide_eq_false rfl)
      all_goals cases n <;> exact fun _ _ => rfl
    | tuple =>
      apply htuple.of_form Value.tuple
      · rintro w ⟨hw, htype⟩
        cases hw with
        | tuple r items => exact ⟨r, fun v hv => items v (Array.mem_toList_iff.mp hv), rfl⟩
        | _ => exact absurd htype (of_decide_eq_false rfl)
      · intro _ _ _ _
        rfl
      · intro _ _
        rfl
    | list =>
      apply hlist.of_form Value.list
      · rintro w ⟨hw, htype⟩
        cases hw with
        | list r items => exact ⟨r, fun v hv => items v (Array.mem_toList_iff.mp hv), rfl⟩
        | _ => exact absurd htype (of_decide_eq_false rfl)
      · intro _ _ _ _
        rfl
      · intro _ _
        rfl
  · intro v w hv hw hne
    cases hv <;> cases hw <;>
      first
        | exact absurd rfl hne
        | cases n <;> exact ⟨rfl, rfl⟩

/-- Sequences are ordered within a depth if their items are so one level below. -/
theorem orderedOn_sequences {k : CellKind} {n : Nat} {items : Ref k → Array Value}
    (ho : OrderedOn h.Orderable (h.equalWithin n) (h.orderWithin n)) :
    OrderedOn (fun r => ∀ v ∈ (items r).toList, h.Orderable v)
      (fun r s => r == s || sameItems (h.equalWithin n) (items r) (items s))
      fun r s => sequenceOrder (h.equalWithin n) (h.orderWithin n) (items r).toList
        (items s).toList := by
  apply (ho.sequence.comap fun r => (items r).toList).of_form id
  · intro r hr
    exact ⟨r, hr, rfl⟩
  · intro r s hr _
    by_cases hsame : r = s
    · subst hsame
      rw [id, beq_self_eq_true, Bool.true_or]
      exact (ho.sequence.equal_self hr).symm
    · rw [id, id, beq_false_of_ne hsame, Bool.false_or, sameItems_eq]
  · intro _ _
    rfl

theorem orderedOn_orderWithin (h : Heap) (n : Nat) :
    OrderedOn h.Orderable (h.equalWithin n) (h.orderWithin n) := by
  induction n with
  | zero => exact orderedOn_of_types orderedOn_all_equal orderedOn_all_equal
  | succ n ih => exact orderedOn_of_types (orderedOn_sequences ih) (orderedOn_sequences ih)

/-- The values that can be ordered are ordered. -/
theorem orderedOn_order (h : Heap) : OrderedOn h.Orderable h.equal h.order :=
  h.orderedOn_orderWithin h.containers

end Heap

end StagedScript
