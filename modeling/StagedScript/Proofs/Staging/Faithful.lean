import StagedScript.Proofs.Staging.Table

/-!
# The table is faithful to the calls

The table of results has an entry for every call that was made ahead of time.
Keys and values are shared with the running program, so only those that nothing
can change are sure to look as they did when the call returned, and an entry
holds what the last call with an equal combination returned.
-/

namespace StagedScript.Staging

open Evaluation (ModuleSpec)

variable {m m' : Machine}

/-! ## Keys -/

theorem ArgKey.equal_symm_mem {same : Value → Value → Bool} {a b : ArgKey Value}
    (h : a.equal same b = true) : ∀ y ∈ b.values, ∃ x ∈ a.values, same x y = true := by
  cases a with
  | single x =>
    cases b with
    | single y => simpa [ArgKey.equal, ArgKey.values] using h
    | tuple ys => simp [ArgKey.equal] at h
  | tuple xs =>
    cases b with
    | single y => simp [ArgKey.equal] at h
    | tuple ys =>
      intro y hy
      change y ∈ ys at hy
      rw [ArgKey.equal, List.isEqv_eq_decide] at h
      split at h
      · next hlen =>
        obtain ⟨i, hi, rfl⟩ := List.mem_iff_getElem.mp hy
        exact ⟨_, List.getElem_mem _, of_decide_eq_true h i (by omega)⟩
      · cases h

theorem ResultKey.equal_symm_mem {same : Value → Value → Bool} {a b : ResultKey Value}
    (h : a.equal same b = true) : ∀ y ∈ b.arguments, ∃ x ∈ a.arguments, same x y = true := by
  cases a <;> cases b <;> simp only [ResultKey.equal, Bool.and_eq_true, Bool.false_eq_true] at h
  · simp [ResultKey.arguments]
  · exact ArgKey.equal_symm_mem h.2

theorem ResultKey.map_congr {f g : Value → Datum} {key : ResultKey Value}
    (h : ∀ v ∈ key.arguments, f v = g v) : key.map f = key.map g := by
  cases key with
  | whole name => rfl
  | variant name args =>
    cases args with
    | single v => simpa [ResultKey.map, ArgKey.map, ResultKey.arguments, ArgKey.values] using h
    | tuple vs =>
      have hmap : vs.map f = vs.map g := List.map_congr_left h
      simp only [ResultKey.map, ArgKey.map, hmap]

theorem ResultKey.hashWrites_congr {f g : Value → List HashWrite} {key : ResultKey Value}
    (h : ∀ v ∈ key.arguments, f v = g v) : key.hashWrites f = key.hashWrites g := by
  cases key with
  | whole name => rfl
  | variant name args =>
    cases args with
    | single v =>
      simpa [ResultKey.hashWrites, ArgKey.hashWrites, ResultKey.arguments, ArgKey.values] using h
    | tuple vs =>
      have hflat : vs.flatMap f = vs.flatMap g := List.flatMap_congr h
      simp only [ResultKey.hashWrites, ArgKey.hashWrites, hflat]

/-- A key is hashed alike on every later heap, so that a table can keep the hash with which it was
added. -/
theorem ResultKey.writes_of_grows {guard : Guard} {h h' : Heap} (hs : h.Sound guard)
    (hg : h.Grows guard h') {key : ResultKey Value}
    (hn : ∀ v ∈ key.arguments, v.Within guard h.extent) :
    (ResultKey.hashing h'.hashing).writes key = (ResultKey.hashing h.hashing).writes key :=
  ResultKey.hashWrites_congr fun v hv => Heap.writes_of_grows hs hg (hn v hv)

def FixedKey (h : Heap) (key : ResultKey Value) : Prop :=
  ∀ v ∈ key.arguments, h.Fixed v

/-- A key of fixed values looks the same on every later heap. -/
theorem FixedKey.map_view {guard : Guard} {h h' : Heap} (hs : h.Sound guard)
    (hg : h.Grows guard h') {key : ResultKey Value} (hkey : FixedKey h key)
    (hn : ∀ v ∈ key.arguments, v.Within guard h.extent) :
    key.map h'.view = key.map h.view :=
  ResultKey.map_congr fun v hv => (hkey v hv).view_eq hs hg (hn v hv)

/-- A key is found where another one is if it is found where its contents are. -/
theorem ResultKey.finds_view (h : Heap) (a b : ResultKey Value) :
    (ResultKey.hashing (Datum.hashing h.digest)).finds (a.map h.view) (b.map h.view) =
      (ResultKey.hashing h.hashing).finds a b := by
  rw [h.hashing_eq, ResultKey.finds_map]

/-- A function without arguments is called once. -/
theorem eq_of_whole {h : Heap} {rs : Registrations} (hnames : (rs.map (·.name)).Nodup)
    {keys : List (ResultKey Value)} (hkeys : keys = rs.flatMap (keysOf h)) {i p : Nat}
    {name : String} (hi : keys[i]? = some (.whole name)) (hp : keys[p]? = some (.whole name)) :
    i = p := by
  have hapart : keys.Pairwise fun a b => ∀ name, a = .whole name → b ≠ .whole name := by
    rw [hkeys, List.flatMap, List.pairwise_flatten]
    constructor
    · intro own hown
      obtain ⟨r, -, rfl⟩ := List.mem_map.mp hown
      unfold keysOf
      split
      · exact List.pairwise_singleton _ _
      · refine List.pairwise_map.mpr (List.pairwise_of_forall fun a b => ?_)
        exact fun name heq => nomatch heq
    · rw [List.pairwise_map]
      refine (List.pairwise_map.mp hnames).imp ?_
      have hname {r : Registration} {name : String} (h : .whole name ∈ keysOf h r) :
          r.name = name := by
        unfold keysOf at h
        split at h
        · cases List.mem_singleton.mp h
          rfl
        · obtain ⟨args, -, heq⟩ := List.mem_map.mp h
          cases heq
      rintro r r' hne a ha b hb name rfl rfl
      exact hne ((hname ha).trans (hname hb).symm)
  obtain ⟨hilt, hi⟩ := List.getElem?_eq_some_iff.mp hi
  obtain ⟨hplt, hp⟩ := List.getElem?_eq_some_iff.mp hp
  rcases Nat.lt_trichotomy i p with hlt | heq | hlt
  · exact absurd hp (List.pairwise_iff_getElem.mp hapart i p hilt hplt hlt name hi)
  · exact heq
  · exact absurd hi (List.pairwise_iff_getElem.mp hapart p i hplt hilt hlt name hp)

/-- Of two equal keys both are for the one call of a function without arguments or none is. -/
theorem ResultKey.eq_whole_iff_of_equal {α : Type} {same : α → α → Bool} {a b : ResultKey α}
    (h : a.equal same b = true) (name : String) : a = .whole name ↔ b = .whole name := by
  cases a <;> cases b <;> simp_all [ResultKey.equal]

theorem EntryOf.key_eq_whole {table : Results Value} {calls : List Call} {i j q : Nat}
    {call first last : Call} (h : EntryOf table calls i j q call first last)
    (hi : calls[i]? = some call) {name : String} (hname : call.key = .whole name) :
    first.key = .whole name ∧ last.key = .whole name := by
  obtain ⟨before, after, -, hfirst, hlast, -⟩ := h.entry
  have hfirstKey : first.key = .whole name := by
    rcases hfirst with rfl | ⟨hfinds, -⟩
    · rw [Option.some.inj (h.first_at.symm.trans hi), hname]
    · exact (ResultKey.eq_whole_iff_of_equal (ResultKey.equal_of_finds hfinds) name).mp hname
  refine ⟨hfirstKey, ?_⟩
  rcases hlast with rfl | ⟨hfinds, -⟩
  · rw [Option.some.inj (h.last_at.symm.trans hi), hname]
  · exact (ResultKey.eq_whole_iff_of_equal (ResultKey.equal_of_finds hfinds) name).mpr hfirstKey

/-- A call whose combination no other call finds, and which finds that of no other call, has an
entry of its own. -/
theorem EntryOf.mem_of_apart {table : Results Value} {calls : List Call} {i j q : Nat}
    {call first last : Call} (h : EntryOf table calls i j q call first last)
    (hi : calls[i]? = some call)
    (hapart : ∀ (p : Nat) (other : Call), p ≠ i → calls[p]? = some other →
      call.hashing.finds call.key other.key = false ∧
      other.hashing.finds other.key call.key = false) :
    (call.key, call.value) ∈ table := by
  obtain ⟨before, after, htable, hfirst, hlast, -⟩ := h.entry
  have hj : j = i := by
    rcases hfirst with hj | ⟨hfinds, -⟩
    · exact hj
    · by_contra hne
      exact Bool.noConfusion (hfinds.symm.trans (hapart j first hne h.first_at).1)
  obtain rfl : first = call := Option.some.inj (h.first_at.symm.trans (hj ▸ hi))
  have hq : q = i := by
    rcases hlast with hq | ⟨hfinds, -⟩
    · exact hq
    · by_contra hne
      exact Bool.noConfusion (hfinds.symm.trans (hapart q last hne h.last_at).2)
  obtain rfl : last = first := Option.some.inj (h.last_at.symm.trans (hq ▸ hi))
  rw [htable]
  simp

/-! ## Faithfulness -/

/-- The table of a successful evaluation ahead of time has an entry for every call: for each
combination that the arguments of a registered function described before any call, and for the
one call of a function without arguments.

The entry is shared by the calls whose combinations are found at its key: they equal it and have the
same hash, whatever the hash function of the machine is; what is written to it for a key never
changes.  The entry holds the value that the last of them returned.  If no other call finds the
combination, nor the call that of another one, the entry is the combination with the value of its
call.  A combination without a list, a dictionary or a waiting marker inside of it is found at the
key as it was declared, and a value without them looks as it did when the call returned. -/
theorem table_holds_calls (hm : m.Sound noGuard) {spec : ModuleSpec} {source : String}
    {table : Results Value} (h : precompute spec source m = .ok (.ok table) m') :
    ∃ t, trace? spec source m = some t ∧
      t.calls.map (·.key) = t.registered.flatMap (keysOf t.ready.heap) ∧
      (∀ call ∈ t.calls, call.heap.digest = m.heap.digest ∧ ∀ other ∈ t.calls,
        call.hashing.writes other.key = (ResultKey.hashing t.ready.heap.hashing).writes other.key) ∧
      ∀ (i : Nat) (call : Call), t.calls[i]? = some call →
        ∃ j q first last, EntryOf table t.calls i j q call first last ∧
          (∀ name, call.key = .whole name → j = i ∧ q = i) ∧
          ((∀ (p : Nat) (other : Call), p ≠ i → t.calls[p]? = some other →
              call.hashing.finds call.key other.key = false ∧
              other.hashing.finds other.key call.key = false) →
            (call.key, call.value) ∈ table) ∧
          (FixedKey t.ready.heap call.key →
            first.key.map m'.heap.view = call.key.map t.ready.heap.view ∨
            (ResultKey.hashing (Datum.hashing m.heap.digest)).finds
              (call.key.map t.ready.heap.view) (first.key.map m'.heap.view) = true) ∧
          (last.heap.Fixed last.value → m'.heap.view last.value = last.heap.view last.value) := by
  obtain ⟨t, htrace, ht, hdigest, hheap, rfl⟩ := trace_of_precompute hm h
  have hkey {p : Nat} {other : Call} (hp : t.calls[p]? = some other) :
      (t.calls.map (·.key))[p]? = some other.key := by
    rw [List.getElem?_map, hp, Option.map_some]
  have hmember {other : Call} (hother : other ∈ t.calls) :
      ∀ v ∈ other.key.arguments, v.Within noGuard t.ready.heap.extent := by
    have hmem : other.key ∈ t.registered.flatMap (keysOf t.ready.heap) :=
      ht.keys ▸ List.mem_map_of_mem hother
    obtain ⟨r, hr, hmem⟩ := List.mem_flatMap.mp hmem
    exact owns_arguments ht.ready (ht.registered r hr).2 hmem
  have howns {p : Nat} {other : Call} (hp : t.calls[p]? = some other) :
      ∀ v ∈ other.key.arguments, v.Within noGuard t.ready.heap.extent :=
    hmember (List.mem_of_getElem? hp)
  refine ⟨t, htrace, ht.keys, ?_, ?_⟩
  · intro call hmem
    have hready := (ht.calls call hmem).2.1
    exact ⟨hready.digest.trans hdigest,
      fun other hother => ResultKey.writes_of_grows ht.ready.heap hready (hmember hother)⟩
  intro i call hi
  obtain ⟨j, q, first, last, hentry⟩ := entryOf_recorded t.calls hi
  obtain ⟨before, after, -, hfirst, -, -⟩ := hentry.entry
  refine ⟨j, q, first, last, hentry, ?_, ?_, ?_, ?_⟩
  · intro name hname
    have hwhole {p : Nat} {other : Call} (hp : t.calls[p]? = some other)
        (hother : other.key = .whole name) : p = i :=
      eq_of_whole ht.names ht.keys (hother ▸ hkey hp) (hname ▸ hkey hi)
    obtain ⟨hfirstKey, hlastKey⟩ := hentry.key_eq_whole hi hname
    exact ⟨hwhole hentry.first_at hfirstKey, hwhole hentry.last_at hlastKey⟩
  · exact hentry.mem_of_apart hi
  · intro hfixed
    rw [← hheap]
    obtain ⟨hcall, hready, hend, -⟩ := ht.calls call (List.mem_of_getElem? hi)
    rcases hfirst with rfl | ⟨hfinds, -⟩
    · obtain rfl : first = call := Option.some.inj (hentry.first_at.symm.trans hi)
      exact .inl (hfixed.map_view ht.ready.heap (hready.trans hend) (howns hi))
    · have hfixedCall : FixedKey call.heap call.key := fun v hv =>
        (hfixed v hv).mono ht.ready.heap hready (howns hi v hv)
      have hfixedFirst : FixedKey call.heap first.key := by
        intro y hy
        obtain ⟨x, hx, hxy⟩ := ResultKey.equal_symm_mem (ResultKey.equal_of_finds hfinds) y hy
        exact (hfixedCall x hx).of_equal hcall ((howns hi x hx).mono hready.extent) hxy
      refine .inr ?_
      rw [hfixedFirst.map_view hcall hend fun v hv =>
          (howns hentry.first_at v hv).mono hready.extent,
        ← hfixed.map_view ht.ready.heap hready (howns hi), ← hdigest, ← hready.digest,
        ResultKey.finds_view]
      exact hfinds
  · intro hfixed
    obtain ⟨hs, -, hend, hvalue⟩ := ht.calls last (List.mem_of_getElem? hentry.last_at)
    exact hheap ▸ hfixed.view_eq hs hend hvalue

def givesTable : EStateM.Result Interrupt Machine (Except Failure (Results Value)) → Bool
  | .ok (.ok _) _ => true
  | _ => false

def doubling : String :=
  "from comptime import comptime\n@comptime(1, 2)\ndef f(x):\n    return x + x\n"

theorem table_holds_calls_doubling :
    ∃ table m', precompute ⟨"__main__", none, none⟩ doubling (.ofPaths {} []) =
        .ok (.ok table) m' ∧
      ∃ t, trace? ⟨"__main__", none, none⟩ doubling (.ofPaths {} []) = some t ∧
        ∀ (i : Nat) (call : Call), t.calls[i]? = some call →
          ∃ j q first last, EntryOf table t.calls i j q call first last := by
  have hsucceeds : givesTable (precompute ⟨"__main__", none, none⟩ doubling (.ofPaths {} [])) := by
    decide +kernel
  unfold givesTable at hsucceeds
  split at hsucceeds
  · next table m' hrun =>
    obtain ⟨t, ht, -, -, hcalls⟩ := table_holds_calls (sound_ofPaths {} [] .standard) hrun
    refine ⟨table, m', hrun, t, ht, ?_⟩
    intro i call hi
    obtain ⟨j, q, first, last, hentry, -⟩ := hcalls i call hi
    exact ⟨j, q, first, last, hentry⟩
  · cases hsucceeds

/-- The written forms of what the calls of an evaluation ahead of time returned, each from the
moment of its return, and those of the values in the table at the end. -/
def returnedAndHeld (source : String) : List String × List String :=
  let spec : ModuleSpec := ⟨"__main__", none, none⟩
  let m := Machine.ofPaths {} []
  match trace? spec source m, precompute spec source m with
  | some t, .ok (.ok table) m' =>
    (t.calls.map fun call => (call.heap.view call.value).repr,
      table.map fun e => (m'.heap.view e.2).repr)
  | _, _ => ([], [])

/-- A list that one call returned is changed by the next call, and of two calls with equal
combinations only the later one is in the table. -/
theorem table_misses_returned_values :
    returnedAndHeld
        ("from comptime import comptime\nseen = []\n@comptime(1, 2)\ndef f(x):\n"
          ++ "    seen.append(x)\n    return seen\n") =
      (["[1]", "[1, 2]"], ["[1, 2]", "[1, 2]"]) ∧
    returnedAndHeld
        ("from comptime import comptime\nseen = []\n@comptime(1, 1)\ndef f(x):\n"
          ++ "    seen.append(x)\n    return len(seen)\n") =
      (["1", "2"], ["2"]) := by
  decide +kernel

end StagedScript.Staging
