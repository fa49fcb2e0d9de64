import StagedScript.Proofs.Machine.Sound

/-!
# Actions that keep a machine sound

`Keeps guard m x Q` says that the action `x`, started in the machine `m`,
arrives in a sound machine reached from `m`, whether it has a result or raises,
and that a result satisfies `Q` there.  The rules below follow the way actions
are put together.
-/

namespace StagedScript

variable {guard : Guard} {m : Machine} {α β : Type}

/-- An action keeps the machine sound, and its result satisfies a condition. -/
def Keeps (guard : Guard) (m : Machine) (x : Run α) (Q : α → Machine → Prop) : Prop :=
  match x m with
  | .ok a m' => m'.Sound guard ∧ m.Reaches guard m' ∧ Q a m'
  | .error _ m' => m'.Sound guard ∧ m.Reaches guard m'

namespace Machine

@[simp]
theorem owns_constant (c : Syntax.Constant) : m.Owns guard (.constant c) :=
  trivial

@[simp]
theorem owns_list (r : Ref .list) : m.Owns guard (.list r) :=
  trivial

@[simp]
theorem owns_dict (r : Ref .dict) : m.Owns guard (.dict r) :=
  trivial

@[simp]
theorem owns_tuple (r : Ref .tuple) : m.Owns guard (.tuple r) ↔ r.index < m.heap.tuples.size :=
  Iff.rfl

@[simp]
theorem owns_awaiting (r : Ref .tuple) :
    m.Owns guard (.awaiting r) ↔ r.index < m.heap.tuples.size :=
  Iff.rfl

@[simp]
theorem owns_entity (e : Entity) : m.Owns guard (.entity e) ↔ e.Sound guard m.heap.functionNames :=
  Iff.rfl

@[simp]
theorem owns_method (v : Value) (method : Method) :
    m.Owns guard (.method v method) ↔ m.Owns guard v :=
  Iff.rfl

end Machine

theorem Keeps.imp {x : Run α} {P Q : α → Machine → Prop} (hx : Keeps guard m x P)
    (h : ∀ a m', m'.Sound guard → m.Reaches guard m' → P a m' → Q a m') : Keeps guard m x Q := by
  unfold Keeps at hx ⊢
  split at hx
  · exact ⟨hx.1, hx.2.1, h _ _ hx.1 hx.2.1 hx.2.2⟩
  · exact hx

theorem keeps_pure (hm : m.Sound guard) {a : α} {Q : α → Machine → Prop} (h : Q a m) :
    Keeps guard m (pure a) Q :=
  ⟨hm, .refl m, h⟩

theorem keeps_throw (hm : m.Sound guard) (i : Interrupt) {Q : α → Machine → Prop} :
    Keeps guard m (throw i) Q :=
  ⟨hm, .refl m⟩

theorem keeps_raise (hm : m.Sound guard) (e : Exception) {Q : α → Machine → Prop} :
    Keeps guard m (Run.raise e) Q :=
  ⟨hm, .refl m⟩

theorem keeps_fault (hm : m.Sound guard) (f : Fault) {Q : α → Machine → Prop} :
    Keeps guard m (Run.fault f) Q :=
  ⟨hm, .refl m⟩

theorem keeps_bind {x : Run α} {f : α → Run β} {P : α → Machine → Prop}
    {Q : β → Machine → Prop} (hx : Keeps guard m x P)
    (hf : ∀ a m', m'.Sound guard → m.Reaches guard m' → P a m' → Keeps guard m' (f a) Q) :
    Keeps guard m (x >>= f) Q := by
  unfold Keeps at hx
  change match (EStateM.bind x f) m with
    | .ok a m' => m'.Sound guard ∧ m.Reaches guard m' ∧ Q a m'
    | .error _ m' => m'.Sound guard ∧ m.Reaches guard m'
  unfold EStateM.bind
  cases hrun : x m with
  | error e m' =>
    rw [hrun] at hx
    exact hx
  | ok a m' =>
    rw [hrun] at hx
    obtain ⟨hsound, hreach, ha⟩ := hx
    have hrest := hf a m' hsound hreach ha
    unfold Keeps at hrest
    dsimp only
    split at hrest
    · exact ⟨hrest.1, hreach.trans hrest.2.1, hrest.2.2⟩
    · exact ⟨hrest.1, hreach.trans hrest.2⟩

theorem keeps_fault_bind (hm : m.Sound guard) (fault : Fault) {f : α → Run β}
    {Q : β → Machine → Prop} : Keeps guard m (Run.fault fault >>= f) Q :=
  ⟨hm, .refl m⟩

theorem keeps_map {x : Run α} {f : α → β} {Q : β → Machine → Prop}
    (hx : Keeps guard m x fun a m' => Q (f a) m') : Keeps guard m (f <$> x) Q :=
  keeps_bind hx fun _ _ hm _ ha => keeps_pure hm ha

theorem keeps_ofExcept (hm : m.Sound guard) {r : Except Fault α} {Q : α → Machine → Prop}
    (h : ∀ a, r = .ok a → Q a m) : Keeps guard m (Run.ofExcept r) Q := by
  cases r with
  | ok a => exact keeps_pure hm (h a rfl)
  | error f => exact keeps_fault hm f

/-- The machine is the one that the rest of the action starts in. -/
theorem keeps_get_bind {f : Machine → Run β} {Q : β → Machine → Prop}
    (h : Keeps guard m (f m) Q) : Keeps guard m (get >>= f) Q :=
  h

/-- The heap is the one that the rest of the action starts in. -/
theorem keeps_getHeap_bind {f : Heap → Run β} {Q : β → Machine → Prop}
    (h : Keeps guard m (f m.heap) Q) : Keeps guard m (Run.getHeap >>= f) Q :=
  h

theorem keeps_view (hm : m.Sound guard) (v : Value) :
    Keeps guard m (Run.view v) fun d m' => d = m.heap.view v ∧ m' = m :=
  keeps_getHeap_bind (keeps_pure hm ⟨rfl, rfl⟩)

theorem keeps_isTrue (hm : m.Sound guard) (v : Value) :
    Keeps guard m (Run.isTrue v) fun _ _ => True :=
  keeps_getHeap_bind (keeps_pure hm trivial)

theorem keeps_modifyHeap (hm : m.Sound guard) {f : Heap → Heap} (hs : (f m.heap).Sound guard)
    (hg : m.heap.Grows guard (f m.heap)) :
    Keeps guard m (Run.modifyHeap f) fun _ m' => m' = { m with heap := f m.heap } :=
  ⟨hm.of_heap hs hg, .of_heap hg, rfl⟩

theorem keeps_changeHeap (hm : m.Sound guard) {change : Heap → α × Heap}
    (hs : (change m.heap).2.Sound guard) (hg : m.heap.Grows guard (change m.heap).2) :
    Keeps guard m (Run.changeHeap change) fun a m' =>
      a = (change m.heap).1 ∧ m' = { m with heap := (change m.heap).2 } :=
  ⟨hm.of_heap hs hg, .of_heap hg, rfl, rfl⟩

theorem keeps_print (hm : m.Sound guard) (line : String) :
    Keeps guard m (Run.print line) fun _ _ => True :=
  ⟨⟨hm.heap, hm.modules, hm.callables, hm.args, hm.named, hm.names⟩, ⟨.refl _, rfl, rfl, rfl, rfl, rfl⟩,
    trivial⟩

/-- Results for the items of a list are collected if each step keeps what it was given. -/
theorem keeps_mapM {f : α → Run β} {P : Machine → α → Prop} {Q : Machine → β → Prop}
    (hP : ∀ {m m' a}, m.Reaches guard m' → P m a → P m' a)
    (hQ : ∀ {m m' b}, m.Reaches guard m' → Q m b → Q m' b)
    (hf : ∀ {m a}, m.Sound guard → P m a → Keeps guard m (f a) fun b m' => Q m' b)
    (hm : m.Sound guard) {items : List α} (hitems : ∀ a ∈ items, P m a) :
    Keeps guard m (items.mapM f) fun results m' => ∀ b ∈ results, Q m' b := by
  induction items generalizing m with
  | nil =>
    rw [List.mapM_nil]
    exact keeps_pure hm (by simp)
  | cons a items ih =>
    rw [List.mapM_cons]
    refine keeps_bind (hf hm (hitems a (by simp))) ?_
    intro b m' hm' hreach hb
    refine keeps_bind (ih hm' fun a ha => hP hreach (hitems a (by simp [ha]))) ?_
    intro bs m'' hm'' hreach' hbs
    refine keeps_pure hm'' ?_
    intro b' hb'
    rcases List.mem_cons.mp hb' with rfl | hb'
    · exact hQ hreach' hb
    · exact hbs b' hb'

/-- What holds of the start of a fold and is kept by each step holds of its result. -/
theorem keeps_foldlM {f : β → α → Run β} {P : β → Machine → Prop} (hm : m.Sound guard)
    {items : List α} {b : β} (hb : P b m)
    (hf : ∀ a ∈ items, ∀ b m', m'.Sound guard → m.Reaches guard m' → P b m' →
      Keeps guard m' (f b a) P) :
    Keeps guard m (items.foldlM f b) P := by
  induction items generalizing m b with
  | nil => exact keeps_pure hm hb
  | cons a items ih =>
    rw [List.foldlM_cons]
    refine keeps_bind (hf a (by simp) b m hm (.refl m) hb) ?_
    intro b' m' hm' hreach hb'
    exact ih hm' hb' fun a' ha' b'' m'' hm'' hreach' hb'' =>
      hf a' (by simp [ha']) b'' m'' hm'' (hreach.trans hreach') hb''

theorem keeps_forM {f : α → Run Unit} {P : Machine → α → Prop}
    (hP : ∀ {m m' a}, m.Reaches guard m' → P m a → P m' a)
    (hf : ∀ {m a}, m.Sound guard → P m a → Keeps guard m (f a) fun _ _ => True)
    (hm : m.Sound guard) {items : List α} (hitems : ∀ a ∈ items, P m a) :
    Keeps guard m (items.forM f) fun _ _ => True := by
  induction items generalizing m with
  | nil => exact keeps_pure hm trivial
  | cons a items ih =>
    refine keeps_bind (hf hm (hitems a (by simp))) ?_
    intro _ m' hm' hreach _
    exact ih hm' fun a ha => hP hreach (hitems a (by simp [ha]))

theorem keeps_addTuple (hm : m.Sound guard) {items : Array Value}
    (hi : ∀ v ∈ items, m.Owns guard v) :
    Keeps guard m (Run.changeHeap (·.addTuple items)) fun r m' =>
      r.index < m'.heap.tuples.size := by
  refine (keeps_changeHeap hm (Heap.sound_addTuple hm.heap hi) (Heap.grows_addTuple _ _)).imp ?_
  rintro r m' - - ⟨rfl, rfl⟩
  simp [Heap.addTuple]

theorem keeps_newTuple (hm : m.Sound guard) {items : Array Value}
    (hi : ∀ v ∈ items, m.Owns guard v) :
    Keeps guard m (Run.newTuple items) fun v m' => m'.Owns guard v :=
  keeps_bind (keeps_addTuple hm hi) fun _ _ hm' _ hr => keeps_pure hm' hr

theorem keeps_newList (hm : m.Sound guard) {items : Array Value}
    (hi : ∀ v ∈ items, m.Owns guard v) :
    Keeps guard m (Run.newList items) fun v m' => m'.Owns guard v :=
  keeps_bind
    (keeps_changeHeap hm (Heap.sound_addList hm.heap hi) (Heap.grows_of_eq rfl rfl rfl rfl))
    fun _ _ hm' _ _ => keeps_pure hm' trivial

theorem keeps_newDict (hm : m.Sound guard) {entries : Array (Value × Value)}
    (he : ∀ e ∈ entries, m.Owns guard e.1 ∧ m.Owns guard e.2) :
    Keeps guard m (Run.newDict entries) fun v m' => m'.Owns guard v :=
  keeps_bind
    (keeps_changeHeap hm (Heap.sound_addDict hm.heap he) (Heap.grows_of_eq rfl rfl rfl rfl))
    fun _ _ hm' _ _ => keeps_pure hm' trivial

theorem keeps_setName (hm : m.Sound guard) {r : Ref .frame} {name : String} {v : Value}
    (hg : ¬guard r name) (hv : m.Owns guard v) :
    Keeps guard m (Run.modifyHeap (·.setName r name v)) fun _ _ => True :=
  (keeps_modifyHeap hm (Heap.sound_setName hm.heap hv) (Heap.grows_setName _ _ hg)).imp
    fun _ _ _ _ _ => trivial

/-- A scope whose innermost variables may all be changed, the given name among them. -/
def Scope.Binds (guard : Guard) (scope : Scope) (name : String) : Prop :=
  ∀ innermost, scope.head? = some innermost → ¬guard innermost name

theorem keeps_assignName (hm : m.Sound guard) {scope : Scope} {name : String} {v : Value}
    (hs : scope.Binds guard name) (hv : m.Owns guard v) :
    Keeps guard m (Run.bind scope name v) fun _ _ => True := by
  cases scope with
  | nil => exact keeps_pure hm trivial
  | cons innermost outer => exact keeps_setName hm (hs innermost rfl) hv

end StagedScript
