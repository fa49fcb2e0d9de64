import StagedScript.Machine.Basic
import Mathlib.Data.List.Infix

/-!
# Sound machines

Programs can build values only from values that they have.  So no reference
ever points beyond the heap, a tuple only refers to older tuples, a function
value has the name of its code, and a scope that no module value leads to stays
out of reach.  `Machine.Sound` states this for everything that a machine stores,
and `Machine.Reaches` says what a run leaves as it was.
-/

namespace StagedScript

/-- Variables that are to stay as they are. -/
abbrev Guard := Ref .frame → String → Prop

namespace Guard

/-- A scope has no variable that is to stay as it is. -/
def Spares (guard : Guard) (r : Ref .frame) : Prop :=
  ∀ name, ¬guard r name

end Guard

variable {guard : Guard}

/-- An entity that a marker takes for a function. -/
def Entity.IsFunction : Entity → Prop
  | .function _ _ | .builtin _ | .skipped _ => True
  | _ => False

/-- An entity does not lead to a scope with guarded variables, and a function has the name of its
code. -/
def Entity.Sound (guard : Guard) (names : List String) : Entity → Prop
  | .function code name => names[code.index]? = some name
  | .module _ globals => guard.Spares globals
  | .skipped inner => inner.IsFunction ∧ inner.Sound guard names
  | _ => True

theorem Entity.Sound.mono {names names' : List String} {e : Entity} (h : e.Sound guard names)
    (hle : names <+: names') : e.Sound guard names' := by
  induction e with
  | function code name =>
    obtain ⟨rest, rfl⟩ := hle
    obtain ⟨hlt, -⟩ := List.getElem?_eq_some_iff.mp h
    exact (List.getElem?_append_left hlt).trans h
  | skipped inner ih => exact ⟨h.1, ih h.2⟩
  | module name globals => exact h
  | _ => trivial

/-- What values can refer to: so many tuples, and functions with these names. -/
structure Extent where
  tuples : Nat
  functions : List String

/-- One extent is part of another. -/
structure Extent.Le (n k : Extent) : Prop where
  tuples : n.tuples ≤ k.tuples
  functions : n.functions <+: k.functions

instance : LE Extent := ⟨Extent.Le⟩

def Value.Within (guard : Guard) (n : Extent) : Value → Prop
  | .tuple r | .awaiting r => r.index < n.tuples
  | .entity e => e.Sound guard n.functions
  | .method receiver _ => receiver.Within guard n
  | _ => True

theorem Value.Within.mono {n k : Extent} {v : Value}
    (h : v.Within guard n) (hle : n ≤ k) : v.Within guard k := by
  induction v with
  | tuple r => exact Nat.lt_of_lt_of_le h hle.tuples
  | awaiting r => exact Nat.lt_of_lt_of_le h hle.tuples
  | entity e => exact Entity.Sound.mono h hle.functions
  | method receiver m ih => exact ih h
  | _ => trivial

namespace Heap

def functionNames (h : Heap) : List String :=
  h.functions.toList.map (·.header.name)

def extent (h : Heap) : Extent :=
  ⟨h.tuples.size, h.functionNames⟩

/-- Everything on a heap refers to its tuples only, and a tuple to older ones. -/
structure Sound (guard : Guard) (h : Heap) : Prop where
  tuples : ∀ i (items : Array Value), h.tuples[i]? = some items →
    ∀ v ∈ items, v.Within guard ⟨i, h.functionNames⟩
  lists : ∀ items ∈ h.lists, ∀ v ∈ items, v.Within guard h.extent
  dicts : ∀ entries ∈ h.dicts, ∀ e ∈ entries,
    e.1.Within guard h.extent ∧ e.2.Within guard h.extent
  frames : ∀ b ∈ h.frames, ∀ name v, b.get? name = some v → v.Within guard h.extent
  functions : ∀ f ∈ h.functions, ∀ v : Value, some v ∈ f.defaults → v.Within guard h.extent
  guarded : ∀ r name, guard r name → r.index < h.frames.size

/-- A heap keeps the tuples, the functions, the guarded variables and the hash function of an
earlier one. -/
structure Grows (guard : Guard) (h h' : Heap) : Prop where
  tuples : h.tuples.toList <+: h'.tuples.toList
  functions : h.functions.toList <+: h'.functions.toList
  frames : h.frames.size ≤ h'.frames.size
  guarded : ∀ r name, guard r name → (h'.frame r).get? name = (h.frame r).get? name
  digest : h'.digest = h.digest

namespace Grows

theorem refl (h : Heap) : Grows guard h h :=
  ⟨List.prefix_rfl, List.prefix_rfl, Nat.le_refl _, fun _ _ _ => rfl, rfl⟩

theorem trans {h h' h'' : Heap} (first : Grows guard h h') (second : Grows guard h' h'') :
    Grows guard h h'' where
  tuples := first.tuples.trans second.tuples
  functions := first.functions.trans second.functions
  frames := Nat.le_trans first.frames second.frames
  guarded := fun r name hg => (second.guarded r name hg).trans (first.guarded r name hg)
  digest := second.digest.trans first.digest

theorem functionNames {h h' : Heap} (hg : Grows guard h h') :
    h.functionNames <+: h'.functionNames :=
  hg.functions.map _

theorem extent {h h' : Heap} (hg : Grows guard h h') : h.extent ≤ h'.extent :=
  ⟨by simpa [Heap.extent] using hg.tuples.length_le, hg.functionNames⟩

/-- A tuple keeps its items. -/
theorem tuple_eq {h h' : Heap} (hg : Grows guard h h') {r : Ref .tuple}
    (hr : r.index < h.tuples.size) : h'.tuple r = h.tuple r := by
  obtain ⟨rest, hrest⟩ := hg.tuples
  have hget : h'.tuples[r.index]? = h.tuples[r.index]? := by
    rw [← Array.getElem?_toList, ← Array.getElem?_toList, ← hrest,
      List.getElem?_append_left (by simpa using hr)]
  rw [tuple, tuple, hget]

/-- A function keeps its code. -/
theorem function?_eq {h h' : Heap} (hg : Grows guard h h') {r : Ref .function} {f : Function}
    (hf : h.function? r = some f) : h'.function? r = some f := by
  obtain ⟨rest, hrest⟩ := hg.functions
  have hr : r.index < h.functions.size := (Array.getElem?_eq_some_iff.mp hf).1
  rw [function?, ← Array.getElem?_toList, ← hrest,
    List.getElem?_append_left (by simpa using hr), Array.getElem?_toList]
  exact hf

end Grows

namespace Sound

variable {h : Heap}

theorem within_tuple (hs : h.Sound guard) {r : Ref .tuple} {v : Value}
    (hv : v ∈ h.tuple r) : v.Within guard ⟨r.index, h.functionNames⟩ ∧ r.index < h.tuples.size := by
  unfold tuple at hv
  cases hget : h.tuples[r.index]? with
  | none => simp [hget] at hv
  | some items =>
    rw [hget, Option.getD_some] at hv
    exact ⟨hs.tuples _ _ hget v hv, (Array.getElem?_eq_some_iff.mp hget).1⟩

theorem tuple_within (hs : h.Sound guard) {r : Ref .tuple} {v : Value}
    (hv : v ∈ h.tuple r) : v.Within guard h.extent :=
  (hs.within_tuple hv).1.mono ⟨Nat.le_of_lt (hs.within_tuple hv).2, List.prefix_rfl⟩

theorem list_within (hs : h.Sound guard) {r : Ref .list} {v : Value}
    (hv : v ∈ h.list r) : v.Within guard h.extent := by
  unfold list at hv
  cases hget : h.lists[r.index]? with
  | none => simp [hget] at hv
  | some items =>
    rw [hget, Option.getD_some] at hv
    exact hs.lists items (Array.mem_of_getElem? hget) v hv

theorem dict_within (hs : h.Sound guard) {r : Ref .dict} {e : Value × Value}
    (he : e ∈ h.dict r) :
    e.1.Within guard h.extent ∧ e.2.Within guard h.extent := by
  unfold dict at he
  cases hget : h.dicts[r.index]? with
  | none => simp [hget] at he
  | some entries =>
    rw [hget, Option.getD_some] at he
    exact hs.dicts entries (Array.mem_of_getElem? hget) e he

theorem frame_within (hs : h.Sound guard) {r : Ref .frame} {name : String} {v : Value}
    (hv : (h.frame r).get? name = some v) : v.Within guard h.extent := by
  unfold frame at hv
  cases hget : h.frames[r.index]? with
  | none => simp [hget, Bindings.get?] at hv
  | some b =>
    rw [hget, Option.getD_some] at hv
    exact hs.frames b (Array.mem_of_getElem? hget) name v hv

theorem lookup_within (hs : h.Sound guard) {scope : Scope} {name : String} {v : Value}
    (hv : h.lookup? scope name = some v) : v.Within guard h.extent := by
  obtain ⟨r, -, hr⟩ := List.exists_of_findSome?_eq_some hv
  exact hs.frame_within hr

end Sound

/-! ## Changes of a heap -/

section Changes

variable {h : Heap}

theorem sound_addTuple (hs : h.Sound guard) {items : Array Value}
    (hi : ∀ v ∈ items, v.Within guard h.extent) : (h.addTuple items).2.Sound guard := by
  have hle : h.extent ≤ (h.addTuple items).2.extent :=
    ⟨by simp [extent, addTuple], List.prefix_rfl⟩
  constructor
  · intro i others hget v hv
    change (h.tuples.push items)[i]? = some others at hget
    rw [Array.getElem?_push] at hget
    split at hget
    · next heq =>
      cases hget
      exact heq ▸ hi v hv
    · exact hs.tuples i others hget v hv
  · exact fun others ho v hv => (hs.lists others ho v hv).mono hle
  · exact fun entries he e hm => (hs.dicts entries he e hm).imp (·.mono hle) (·.mono hle)
  · exact fun b hb name v hv => (hs.frames b hb name v hv).mono hle
  · exact fun f hf v hv => (hs.functions f hf v hv).mono hle
  · exact hs.guarded

theorem grows_addTuple (h : Heap) (items : Array Value) :
    Grows guard h (h.addTuple items).2 where
  tuples := by simp [addTuple]
  functions := List.prefix_rfl
  frames := Nat.le_refl _
  guarded := fun _ _ _ => rfl
  digest := rfl

theorem sound_addList (hs : h.Sound guard) {items : Array Value}
    (hi : ∀ v ∈ items, v.Within guard h.extent) : (h.addList items).2.Sound guard where
  tuples := hs.tuples
  lists := by
    intro others ho
    rcases Array.mem_push.mp ho with ho | rfl
    · exact hs.lists others ho
    · exact hi
  dicts := hs.dicts
  frames := hs.frames
  functions := hs.functions
  guarded := hs.guarded

theorem sound_addDict (hs : h.Sound guard) {entries : Array (Value × Value)}
    (he : ∀ e ∈ entries, e.1.Within guard h.extent ∧ e.2.Within guard h.extent) :
    (h.addDict entries).2.Sound guard where
  tuples := hs.tuples
  lists := hs.lists
  dicts := by
    intro others ho
    rcases Array.mem_push.mp ho with ho | rfl
    · exact hs.dicts others ho
    · exact he
  frames := hs.frames
  functions := hs.functions
  guarded := hs.guarded

theorem sound_addFrame (hs : h.Sound guard) {b : Bindings}
    (hb : ∀ name v, b.get? name = some v → v.Within guard h.extent) :
    (h.addFrame b).2.Sound guard where
  tuples := hs.tuples
  lists := hs.lists
  dicts := hs.dicts
  frames := by
    intro other ho
    rcases Array.mem_push.mp ho with ho | rfl
    · exact hs.frames other ho
    · exact hb
  functions := hs.functions
  guarded := fun r name hg => by
    have := hs.guarded r name hg
    simp only [addFrame, Array.size_push]
    omega

theorem grows_addFrame (hs : h.Sound guard) (b : Bindings) :
    Grows guard h (h.addFrame b).2 where
  tuples := List.prefix_rfl
  functions := List.prefix_rfl
  frames := by simp [addFrame]
  guarded := fun r name hg => by
    have hr := hs.guarded r name hg
    simp [frame, addFrame, Array.getElem?_push, Nat.ne_of_lt hr]
  digest := rfl

theorem sound_addFunction (hs : h.Sound guard) {f : Function}
    (hf : ∀ v, some v ∈ f.defaults → v.Within guard h.extent) :
    (h.addFunction f).2.Sound guard := by
  have hnames : h.functionNames <+: (h.addFunction f).2.functionNames := by
    simp [functionNames, addFunction]
  have hle : h.extent ≤ (h.addFunction f).2.extent := ⟨Nat.le_refl _, hnames⟩
  constructor
  · exact fun i items hi v hv => (hs.tuples i items hi v hv).mono ⟨Nat.le_refl _, hnames⟩
  · exact fun items hi v hv => (hs.lists items hi v hv).mono hle
  · exact fun entries he e hm => (hs.dicts entries he e hm).imp (·.mono hle) (·.mono hle)
  · exact fun b hb name v hv => (hs.frames b hb name v hv).mono hle
  · intro other ho v hv
    rcases Array.mem_push.mp ho with ho | rfl
    · exact (hs.functions other ho v hv).mono hle
    · exact (hf v hv).mono hle
  · exact hs.guarded

theorem grows_addFunction (h : Heap) (f : Function) : Grows guard h (h.addFunction f).2 where
  tuples := List.prefix_rfl
  functions := by simp [addFunction]
  frames := Nat.le_refl _
  guarded := fun _ _ _ => rfl
  digest := rfl

/-- The value of a new function has the name of its code. -/
theorem within_addFunction (h : Heap) (f : Function) :
    (Value.entity (.function (h.addFunction f).1 f.header.name)).Within guard
      (h.addFunction f).2.extent := by
  simp [Value.Within, Entity.Sound, extent, functionNames, addFunction]

/-- A heap with other lists and dictionaries keeps all that is to be kept. -/
theorem grows_of_eq {h' : Heap} (ht : h'.tuples = h.tuples) (hf : h'.functions = h.functions)
    (hr : h'.frames = h.frames) (hd : h'.digest = h.digest) : Grows guard h h' where
  tuples := by rw [ht]
  functions := by rw [hf]
  frames := by rw [hr]
  guarded := fun r name _ => by rw [frame, frame, hr]
  digest := hd

theorem sound_updateList (hs : h.Sound guard) {r : Ref .list} {f : Array Value → Array Value}
    (hf : ∀ v ∈ f (h.list r), v.Within guard h.extent) :
    (h.updateList r f).Sound guard where
  tuples := hs.tuples
  lists := by
    intro items hi
    obtain ⟨i, hlt, rfl⟩ := Array.mem_iff_getElem.mp hi
    simp only [updateList, Array.size_modify] at hlt
    simp only [updateList, Array.getElem_modify]
    split
    · next heq =>
      have hlist : h.list r = h.lists[i] := by
        rw [list, heq, Array.getElem?_eq_getElem hlt, Option.getD_some]
      exact hlist ▸ hf
    · exact hs.lists _ (Array.getElem_mem hlt)
  dicts := hs.dicts
  frames := hs.frames
  functions := hs.functions
  guarded := hs.guarded

theorem sound_setDict (hs : h.Sound guard) {r : Ref .dict} {entries : Array (Value × Value)}
    (he : ∀ e ∈ entries, e.1.Within guard h.extent ∧ e.2.Within guard h.extent) :
    (h.setDict r entries).Sound guard where
  tuples := hs.tuples
  lists := hs.lists
  dicts := by
    intro others ho
    rcases Array.mem_or_eq_of_mem_setIfInBounds ho with ho | rfl
    · exact hs.dicts others ho
    · exact he
  frames := hs.frames
  functions := hs.functions
  guarded := hs.guarded

theorem frame_setName (h : Heap) (r other : Ref .frame) (name : String) (v : Value)
    (hr : r.index < h.frames.size) :
    (h.setName r name v).frame other =
      if other = r then (h.frame r).set name v else h.frame other := by
  have hindex : other = r ↔ r.index = other.index := by
    constructor
    · rintro rfl
      rfl
    · intro heq
      cases other
      cases r
      simp_all
  simp only [frame, setName, Array.getElem?_modify, hindex]
  split
  · next heq => simp [← heq, Array.getElem?_eq_getElem hr]
  · rfl

theorem sound_setName (hs : h.Sound guard) {r : Ref .frame} {name : String} {v : Value}
    (hv : v.Within guard h.extent) : (h.setName r name v).Sound guard where
  tuples := hs.tuples
  lists := hs.lists
  dicts := hs.dicts
  frames := by
    intro b hb other w hw
    obtain ⟨i, hlt, rfl⟩ := Array.mem_iff_getElem.mp hb
    simp only [setName, Array.size_modify] at hlt
    simp only [setName, Array.getElem_modify] at hw
    split at hw
    · rw [Bindings.get?_set] at hw
      split at hw
      · exact Option.some.inj hw ▸ hv
      · exact hs.frames _ (Array.getElem_mem hlt) other w hw
    · exact hs.frames _ (Array.getElem_mem hlt) other w hw
  functions := hs.functions
  guarded := fun other n hg => by
    have := hs.guarded other n hg
    simpa [setName] using this

theorem grows_setName (h : Heap) {r : Ref .frame} {name : String} (v : Value)
    (hg : ¬guard r name) : Grows guard h (h.setName r name v) where
  tuples := List.prefix_rfl
  functions := List.prefix_rfl
  frames := by simp [setName]
  guarded := fun other n hother => by
    by_cases hr : r.index < h.frames.size
    · rw [frame_setName h r other name v hr]
      split
      · next heq =>
        subst heq
        rw [Bindings.get?_set, if_neg]
        rintro rfl
        exact hg hother
      · rfl
    · have hsame : h.frames.modify r.index (·.set name v) = h.frames := by
        apply Array.ext
        · simp
        · intro i hi hi'
          rw [Array.getElem_modify, if_neg (by omega)]
      rw [frame, setName, hsame, frame]
  digest := rfl

end Changes

end Heap

def Registration.Named (r : Registration) : Prop :=
  ∃ e : Entity, r.callable = .entity e ∧ e.IsFunction ∧ r.name = e.functionName

/-- Everything that a machine stores has come from its heap, and functions are registered under
their own names, none twice. -/
structure Machine.Sound (guard : Guard) (m : Machine) : Prop where
  heap : m.heap.Sound guard
  modules : ∀ name loaded, m.modules.get? name = some loaded → guard.Spares loaded.globals
  callables : ∀ r ∈ m.registrations, r.callable.Within guard m.heap.extent
  args : ∀ r ∈ m.registrations, ∀ v ∈ r.args, v.Within guard m.heap.extent
  named : ∀ r ∈ m.registrations, r.Named
  names : (m.registrations.map (·.name)).Nodup

/-- A machine was reached from an earlier one: what is never changed is as it was. -/
structure Machine.Reaches (guard : Guard) (m m' : Machine) : Prop where
  heap : m.heap.Grows guard m'.heap
  files : m'.files = m.files
  paths : m'.modules.searchPaths = m.modules.searchPaths
  loading : m'.modules.loading = m.modules.loading
  depth : m'.depth = m.depth
  ahead : m'.ahead = m.ahead

namespace Machine

def Owns (guard : Guard) (m : Machine) (v : Value) : Prop :=
  v.Within guard m.heap.extent

namespace Reaches

theorem refl (m : Machine) : Reaches guard m m :=
  ⟨.refl _, rfl, rfl, rfl, rfl, rfl⟩

theorem trans {m m' m'' : Machine} (first : Reaches guard m m') (second : Reaches guard m' m'') :
    Reaches guard m m'' where
  heap := first.heap.trans second.heap
  files := second.files.trans first.files
  paths := second.paths.trans first.paths
  loading := second.loading.trans first.loading
  depth := second.depth.trans first.depth
  ahead := second.ahead.trans first.ahead

theorem owns {m m' : Machine} (hm : Reaches guard m m') {v : Value} (hv : m.Owns guard v) :
    m'.Owns guard v :=
  Value.Within.mono hv hm.heap.extent

/-- Only the heap has changed. -/
theorem of_heap {m : Machine} {h : Heap} (hg : m.heap.Grows guard h) :
    Reaches guard m { m with heap := h } :=
  ⟨hg, rfl, rfl, rfl, rfl, rfl⟩

end Reaches

theorem Sound.of_heap {m : Machine} (hm : m.Sound guard) {h : Heap} (hs : h.Sound guard)
    (hg : m.heap.Grows guard h) : ({ m with heap := h } : Machine).Sound guard where
  heap := hs
  modules := hm.modules
  callables := fun r hr => (hm.callables r hr).mono hg.extent
  args := fun r hr v hv => (hm.args r hr v hv).mono hg.extent
  named := hm.named
  names := hm.names

end Machine

end StagedScript
