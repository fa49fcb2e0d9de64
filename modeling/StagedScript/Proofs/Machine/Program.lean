import StagedScript.Evaluation.Program
import StagedScript.Proofs.Machine.Statement

/-!
# Programs keep machines sound

Calls and imports are proved to keep machines sound by induction on how deep
they nest, so `services_sound` holds for every program.
-/

namespace StagedScript

open Run Evaluation Staging
open Syntax (Block Param SyntaxFault)

variable {guard : Guard} {m : Machine} {s : Services}

/-- An action in a bracket keeps a machine sound if entering does, and leaving a machine that was
reached from there does. -/
theorem keeps_bracket {α : Type} {enter leave : Machine → Machine} {x : Run α}
    {P Q : α → Machine → Prop} (hx : Keeps guard (enter m) x P)
    (hleave : ∀ m', m'.Sound guard → (enter m).Reaches guard m' →
      (leave m').Sound guard ∧ m.Reaches guard (leave m'))
    (hQ : ∀ a m', m'.Sound guard → (enter m).Reaches guard m' → P a m' → Q a (leave m')) :
    Keeps guard m (bracket enter leave x) Q := by
  unfold Keeps at hx ⊢
  unfold bracket
  cases hrun : x (enter m) with
  | ok a m' =>
    rw [hrun] at hx
    obtain ⟨hsound, hreach, ha⟩ := hx
    exact ⟨(hleave m' hsound hreach).1, (hleave m' hsound hreach).2, hQ a m' hsound hreach ha⟩
  | error e m' =>
    rw [hrun] at hx
    exact hleave m' hx.1 hx.2

/-! ## Calls of functions -/

theorem get?_within_set {n : Extent} {b : Bindings} {name : String} {v : Value}
    (hb : ∀ other w, b.get? other = some w → w.Within guard n) (hv : v.Within guard n) :
    ∀ other w, (b.set name v).get? other = some w → w.Within guard n := by
  intro other w hw
  rw [Bindings.get?_set] at hw
  split at hw
  · exact Option.some.inj hw ▸ hv
  · exact hb other w hw

theorem keeps_bindParams (hm : m.Sound guard) {f : Function} {args : List Value}
    (hd : ∀ v, some v ∈ f.defaults → m.Owns guard v) (hargs : ∀ v ∈ args, m.Owns guard v) :
    Keeps guard m (bindParams f args) fun b m' =>
      m' = m ∧ ∀ name v, b.get? name = some v → m.Owns guard v := by
  unfold bindParams
  dsimp only
  split
  · exact keeps_fault_bind hm _
  refine keeps_foldlM hm ⟨rfl, by simp [Bindings.get?]⟩ ?_
  rintro ⟨⟨param, default⟩, arg⟩ hp b _ - - ⟨rfl, hb⟩
  dsimp only
  split
  · next v hv =>
    refine keeps_pure hm ⟨rfl, get?_within_set hb ?_⟩
    obtain ⟨hpd, hfilled⟩ := List.of_mem_zip hp
    obtain ⟨-, hdefault⟩ := List.of_mem_zip hpd
    cases arg with
    | none =>
      rw [Option.none_or] at hv
      exact hd v (hv ▸ hdefault)
    | some a =>
      obtain rfl : a = v := Option.some.inj hv
      rcases List.mem_append.mp hfilled with hfilled | hfilled
      · exact hargs a (by simpa using hfilled)
      · simp [List.mem_replicate] at hfilled
  · exact keeps_fault hm _

theorem spares_addFrame {h : Heap} (hs : h.Sound guard) (b : Bindings) :
    guard.Spares (h.addFrame b).1 := by
  intro name hg
  exact Nat.lt_irrefl _ (hs.guarded _ name hg)

theorem keeps_addFrame (hm : m.Sound guard) {b : Bindings}
    (hb : ∀ name v, b.get? name = some v → m.Owns guard v) :
    Keeps guard m (changeHeap (·.addFrame b)) fun r _ => guard.Spares r := by
  refine (keeps_changeHeap hm (Heap.sound_addFrame hm.heap hb)
    (Heap.grows_addFrame hm.heap b)).imp ?_
  rintro r m' - - ⟨rfl, rfl⟩
  exact spares_addFrame hm.heap b

theorem keeps_callFunction (hs : s.Sound guard) (hm : m.Sound guard) {f : Function}
    {args : List Value} (hd : ∀ v, some v ∈ f.defaults → m.Owns guard v)
    (hargs : ∀ v ∈ args, m.Owns guard v) :
    Keeps guard m (callFunction s f args) fun v m' => m'.Owns guard v := by
  unfold callFunction
  refine keeps_bind (keeps_bindParams hm hd hargs) ?_
  rintro b m₁ hm₁ - ⟨rfl, hb⟩
  refine keeps_bind (keeps_addFrame hm₁ hb) ?_
  intro frame m₂ hm₂ _ hframe
  refine keeps_get_bind ?_
  split
  · exact keeps_fault_bind hm₂ _
  · refine keeps_bind (P := fun flow m' => flow.Owned guard m') ?_ ?_
    · refine keeps_bracket (keeps_execBlock hs (frame :: f.scope) f.body (Scope.bindsAll_of_spares hframe _)
          ⟨hm₂.heap, hm₂.modules, hm₂.callables, hm₂.args, hm₂.named, hm₂.names⟩) ?_ ?_
      · intro m' hm' hreach
        refine ⟨⟨hm'.heap, hm'.modules, hm'.callables, hm'.args, hm'.named, hm'.names⟩,
          ⟨hreach.heap, hreach.files, hreach.paths, hreach.loading, ?_, hreach.ahead⟩⟩
        have hdepth : m'.depth = m₂.depth + 1 := hreach.depth
        exact Nat.sub_eq_of_eq_add hdepth
      · intro flow m' _ _ hflow
        cases flow with
        | returned v => exact hflow
        | _ => trivial
    · intro flow m₃ hm₃ _ hflow
      split
      · exact keeps_pure hm₃ hflow
      · exact keeps_pure hm₃ trivial

theorem keeps_newException (hm : m.Sound guard) (kind : ExceptionKind) {args : List Value}
    (hargs : ∀ v ∈ args, m.Owns guard v) :
    Keeps guard m (newException kind args) fun v m' => m'.Owns guard v := by
  unfold newException
  split
  · exact keeps_pure hm trivial
  · exact keeps_bind (keeps_view hm _) fun _ _ hm' _ _ => keeps_pure hm' trivial
  · refine keeps_bind (keeps_newTuple hm (by simpa using hargs)) ?_
    intro v m' hm' _ _
    exact keeps_bind (keeps_view hm' v) fun _ _ hm'' _ _ => keeps_pure hm'' trivial

theorem keeps_callBuiltin (hm : m.Sound guard) (f : Builtin) {args : List Value}
    (hargs : ∀ v ∈ args, m.Owns guard v) :
    Keeps guard m (callBuiltin f args) fun v m' => m'.Owns guard v := by
  cases f with
  | global f => exact keeps_callGlobal hm f hargs
  | math f => exact keeps_callMath hm f args
  | form f => exact keeps_fault hm _

/-! ## Markers -/

theorem onlyFunction?_mem {args : List Value} {f : Entity} (h : onlyFunction? args = some f) :
    Value.entity f ∈ args := by
  unfold onlyFunction? at h
  split at h <;> cases h <;> simp

theorem onlyFunction?_isFunction {args : List Value} {f : Entity}
    (h : onlyFunction? args = some f) : f.IsFunction := by
  unfold onlyFunction? at h
  split at h <;> cases h <;> trivial

theorem mem_register {r r' : Registration} {rs : Registrations}
    (h : r' ∈ Registrations.register r rs) : r' = r ∨ r' ∈ rs := by
  induction rs with
  | nil => simpa [Registrations.register] using h
  | cons other rest ih =>
    unfold Registrations.register at h
    split at h
    · rcases List.mem_cons.mp h with rfl | h
      · exact .inl rfl
      · exact .inr (by simp [h])
    · rcases List.mem_cons.mp h with rfl | h
      · exact .inr (by simp)
      · exact (ih h).imp_right fun h => by simp [h]

theorem nodup_register (r : Registration) {rs : Registrations}
    (h : (rs.map (·.name)).Nodup) : ((Registrations.register r rs).map (·.name)).Nodup := by
  rw [Registrations.names_register]
  split
  · exact h
  · next hmem =>
    rw [List.nodup_append]
    refine ⟨h, by simp, ?_⟩
    rintro a ha b hb rfl
    exact hmem (List.mem_singleton.mp hb ▸ ha)

theorem keeps_register (hm : m.Sound guard) {f : Entity} {args : List Value}
    (hf : m.Owns guard (.entity f)) (hfunction : f.IsFunction)
    (hargs : ∀ v ∈ args, m.Owns guard v) :
    Keeps guard m (register f args) fun v m' => m'.Owns guard v := by
  refine ⟨⟨hm.heap, hm.modules, ?_, ?_, ?_, nodup_register _ hm.names⟩,
    ⟨.refl _, rfl, rfl, rfl, rfl, rfl⟩, hf⟩
  · intro r hr
    rcases mem_register hr with rfl | hr
    · exact hf
    · exact hm.callables r hr
  · intro r hr
    rcases mem_register hr with rfl | hr
    · exact hargs
    · exact hm.args r hr
  · intro r hr
    rcases mem_register hr with rfl | hr
    · exact ⟨f, rfl, hfunction, rfl⟩
    · exact hm.named r hr

theorem keeps_applyAwaiting (hm : m.Sound guard) (spec : Ref .tuple) {args : List Value}
    (hargs : ∀ v ∈ args, m.Owns guard v) :
    Keeps guard m (applyAwaiting spec args) fun v m' => m'.Owns guard v := by
  unfold applyAwaiting
  split
  · next f hf =>
    exact keeps_getHeap_bind (keeps_register hm (hargs _ (onlyFunction?_mem hf))
      (onlyFunction?_isFunction hf) fun v hv => hm.heap.tuple_within (Array.mem_toList_iff.mp hv))
  · exact keeps_fault hm _

theorem keeps_registrationsDict (hm : m.Sound guard) :
    Keeps guard m registrationsDict fun v m' => m'.Owns guard v := by
  unfold registrationsDict
  refine keeps_get_bind ?_
  refine keeps_bind (P := fun entries m' =>
    ∀ e ∈ entries, m'.Owns guard e.1 ∧ m'.Owns guard e.2) ?_ ?_
  · refine keeps_mapM (P := fun m (r : Registration) => ∀ v ∈ r.args, m.Owns guard v)
      (Q := fun m (e : Value × Value) => m.Owns guard e.1 ∧ m.Owns guard e.2)
      (fun hreach h v hv => hreach.owns (h v hv)) (fun hreach => And.imp hreach.owns hreach.owns)
      (fun hm hargs => ?_) hm hm.args
    exact keeps_bind (keeps_newTuple hm (by simpa using hargs)) fun _ _ hm' _ hv =>
      keeps_pure hm' ⟨trivial, hv⟩
  · intro entries m' hm' _ he
    exact keeps_newDict hm' (by simpa using he)

theorem keeps_applyMarker (hm : m.Sound guard) (marker : Marker) {args : List Value}
    (hargs : ∀ v ∈ args, m.Owns guard v) :
    Keeps guard m (applyMarker marker args) fun v m' => m'.Owns guard v := by
  unfold applyMarker
  cases marker with
  | comptime =>
    dsimp only
    split
    · next f hf =>
      exact keeps_register hm (hargs _ (onlyFunction?_mem hf)) (onlyFunction?_isFunction hf)
        (by simp)
    · exact keeps_bind (keeps_addTuple hm (by simpa using hargs)) fun _ _ hm' _ hr =>
        keeps_pure hm' hr
  | skip =>
    dsimp only
    split
    · exact keeps_pure hm trivial
    · split
      · next f hf =>
        refine keeps_get_bind (keeps_pure hm ?_)
        have howned : m.Owns guard (.entity f) := hargs _ (onlyFunction?_mem hf)
        split
        · exact ⟨onlyFunction?_isFunction hf, howned⟩
        · exact howned
      · exact keeps_fault hm _
  | getRegistrations =>
    dsimp only
    split
    · exact keeps_registrationsDict hm
    · exact keeps_fault hm _

theorem keeps_callEntity (hs : s.Sound guard) (hm : m.Sound guard) {e : Entity}
    {args : List Value} (he : m.Owns guard (.entity e)) (hargs : ∀ v ∈ args, m.Owns guard v) :
    Keeps guard m (callEntity s e args) fun v m' => m'.Owns guard v := by
  induction e with
  | function code name =>
    rw [callEntity]
    refine keeps_getHeap_bind ?_
    split
    · next f hf =>
      refine keeps_callFunction hs hm (fun v hv => ?_) hargs
      exact hm.heap.functions f (Array.mem_of_getElem? hf) v hv
    · exact keeps_fault hm _
  | builtin f =>
    rw [callEntity]
    exact keeps_callBuiltin hm f hargs
  | marker marker =>
    rw [callEntity]
    exact keeps_applyMarker hm marker hargs
  | skipped inner ih =>
    rw [callEntity]
    refine keeps_get_bind ?_
    split
    · exact keeps_pure hm trivial
    · exact ih he.2
  | exceptionType kind =>
    rw [callEntity]
    exact keeps_newException hm kind hargs
  | module name globals =>
    rw [callEntity]
    exact keeps_fault hm _
  | exception e =>
    rw [callEntity]
    exact keeps_fault hm _

theorem keeps_callValue (hs : s.Sound guard) (hm : m.Sound guard) {callee : Value}
    {args : List Value} (hcallee : m.Owns guard callee) (hargs : ∀ v ∈ args, m.Owns guard v) :
    Keeps guard m (callValue s callee args) fun v m' => m'.Owns guard v := by
  unfold callValue
  split
  · exact keeps_callEntity hs hm hcallee hargs
  · exact keeps_callMethod hm _ _ hargs
  · exact keeps_applyAwaiting hm _ hargs
  · exact keeps_fault hm _

/-! ## Modules -/

/-- Keeping a module leads to a sound machine if its globals are not guarded. -/
theorem keeps_insertModule (hm : m.Sound guard) {name : String} {loaded : LoadedModule}
    (h : guard.Spares loaded.globals) :
    Keeps guard m
      (modify fun machine => { machine with modules := machine.modules.insert name loaded })
      fun _ _ => True := by
  refine ⟨⟨hm.heap, fun other found hfound => ?_, hm.callables, hm.args, hm.named, hm.names⟩,
    ⟨.refl _, rfl, rfl, rfl, rfl, rfl⟩, trivial⟩
  change (m.modules.insert name loaded).get? other = some found at hfound
  rw [ModuleCache.get?_insert] at hfound
  split at hfound
  · exact Option.some.inj hfound ▸ h
  · exact hm.modules other found hfound

/-- The value of a name is one of the values in a list of variables. -/
theorem Bindings.mem_of_get? {b : Bindings} {name : String} {v : Value}
    (h : b.get? name = some v) : ∃ key, (key, v) ∈ b := by
  obtain ⟨before, after, rfl, -⟩ := List.lookup_eq_some_iff.mp h
  exact ⟨name, by simp⟩

theorem owns_specGlobals (spec : ModuleSpec) {name : String} {v : Value}
    (hv : Bindings.get? spec.globals name = some v) : m.Owns guard v := by
  obtain ⟨key, hmem⟩ := Bindings.mem_of_get? hv
  rcases List.mem_append.mp hmem with hmem | hmem
  · simp only [List.mem_cons, Prod.mk.injEq, List.not_mem_nil, or_false] at hmem
    rcases hmem with ⟨-, rfl⟩ | ⟨-, rfl⟩
    · trivial
    · cases spec.package <;> trivial
  · obtain ⟨file, -, heq⟩ := Option.map_eq_some_iff.mp (Option.mem_toList.mp hmem)
    cases heq
    trivial

theorem keeps_execBody (hs : s.Sound guard) (hm : m.Sound guard) (spec : ModuleSpec)
    (body : Block) :
    Keeps guard m (execBody s spec body) fun loaded _ => guard.Spares loaded.globals := by
  unfold execBody
  refine keeps_bind (keeps_addFrame hm fun _ _ => owns_specGlobals spec) ?_
  intro globals m₁ hm₁ _ hglobals
  refine keeps_bind
    (keeps_execBlock hs [globals] body (Scope.bindsAll_of_spares hglobals _) hm₁) ?_
  intro flow m₂ hm₂ _ _
  exact keeps_bind (keeps_insertModule hm₂ hglobals) fun _ _ hm₃ _ _ => keeps_pure hm₃ hglobals

theorem keeps_execSource (hs : s.Sound guard) (hm : m.Sound guard) (spec : ModuleSpec)
    (source : String) :
    Keeps guard m (execSource s spec source) fun result _ =>
      ∀ loaded, result = .ok loaded → guard.Spares loaded.globals := by
  unfold execSource
  split
  · exact keeps_pure hm fun _ h => nomatch h
  · refine keeps_bind (keeps_execBody hs hm spec _) ?_
    intro loaded m' hm' _ h
    refine keeps_pure hm' ?_
    rintro other heq
    exact Except.ok.inj heq ▸ h

theorem keeps_addModule (hm : m.Sound guard) (name : String) {globals : Bindings}
    (hg : ∀ n v, globals.get? n = some v → m.Owns guard v) :
    Keeps guard m (addModule name globals) fun loaded _ => guard.Spares loaded.globals := by
  unfold addModule
  refine keeps_bind (keeps_addFrame hm hg) ?_
  intro frame m₁ hm₁ _ hframe
  exact keeps_bind (keeps_insertModule hm₁ hframe) fun _ _ hm₂ _ _ => keeps_pure hm₂ hframe

theorem finishLoading_beginLoading {c c' : ModuleCache} {name : String}
    (h : c.beginLoading name = .ok c') : (c'.loading.reverse.erase name).reverse = c.loading := by
  unfold ModuleCache.beginLoading at h
  split at h
  · cases h
  · cases h
    simp

/-- Running the file of a module keeps a machine sound if the run does. -/
theorem keeps_whileLoading {modules : ModuleCache} {name : String}
    {x : Run (Except SyntaxFault LoadedModule)} {P : Except SyntaxFault LoadedModule → Prop}
    (hbegin : m.modules.beginLoading name = .ok modules)
    (hx : Keeps guard { m with modules := modules } x fun result _ => P result) :
    Keeps guard m (whileLoading modules name x) fun result _ => P result := by
  have hpaths : modules.searchPaths = m.modules.searchPaths := by
    unfold ModuleCache.beginLoading at hbegin
    split at hbegin
    · cases hbegin
    · cases hbegin
      rfl
  have hleave (completed : Bool) {m' : Machine} (hm' : m'.Sound guard)
      (hreach : Machine.Reaches guard { m with modules := modules } m') :
      ({ m' with modules := m'.modules.endLoading name completed } : Machine).Sound guard ∧
        m.Reaches guard { m' with modules := m'.modules.endLoading name completed } := by
    refine ⟨⟨hm'.heap, hm'.modules, hm'.callables, hm'.args, hm'.named, hm'.names⟩,
      ⟨hreach.heap, hreach.files, hreach.paths.trans hpaths, ?_, hreach.depth, hreach.ahead⟩⟩
    have hloading : m'.modules.loading = modules.loading := hreach.loading
    change (m'.modules.loading.reverse.erase name).reverse = _
    rw [hloading]
    exact finishLoading_beginLoading hbegin
  unfold Keeps at hx ⊢
  unfold whileLoading
  cases hrun : x { m with modules := modules } with
  | ok result m' =>
    rw [hrun] at hx
    obtain ⟨hsound, hreach, hresult⟩ := hx
    exact ⟨(hleave _ hsound hreach).1, (hleave _ hsound hreach).2, hresult⟩
  | error e m' =>
    rw [hrun] at hx
    exact hleave _ hx.1 hx.2

theorem keeps_loadFile (hs : s.Sound guard) (hm : m.Sound guard) (path : String)
    (spec : ModuleSpec) :
    Keeps guard m (loadFile s path spec) fun loaded _ => guard.Spares loaded.globals := by
  unfold loadFile
  refine keeps_get_bind ?_
  split
  · exact keeps_fault hm _
  · next source hread =>
    refine keeps_get_bind (keeps_bind (keeps_ofExcept hm
      (Q := fun modules m' => m.modules.beginLoading spec.name = .ok modules ∧ m' = m)
      fun modules h => ⟨h, rfl⟩) ?_)
    rintro modules m₁ hm₁ - ⟨hbegin, rfl⟩
    have hentered : ({ m₁ with modules := modules } : Machine).Sound guard := by
      refine ⟨hm₁.heap, fun name loaded h => hm₁.modules name loaded ?_, hm₁.callables, hm₁.args,
        hm₁.named, hm₁.names⟩
      unfold ModuleCache.beginLoading at hbegin
      split at hbegin
      · cases hbegin
      · cases hbegin
        exact h
    refine keeps_bind (keeps_whileLoading hbegin (keeps_execSource hs hentered spec source)) ?_
    intro result m₂ hm₂ _ hresult
    split
    · exact keeps_pure hm₂ (hresult _ rfl)
    · exact keeps_fault hm₂ _

theorem keeps_findAndLoad (hs : s.Sound guard) (hm : m.Sound guard) (name : String) :
    Keeps guard m (findAndLoad s name) fun loaded _ => guard.Spares loaded.globals := by
  unfold findAndLoad
  generalize splitName? name = outer
  cases outer with
  | none =>
    dsimp only
    refine keeps_get_bind ?_
    split
    · exact keeps_fault_bind hm _
    · exact keeps_bind (keeps_addModule hm name (by simp [Bindings.get?]))
        fun _ _ hm' _ h => keeps_pure hm' h
    · exact keeps_bind (keeps_loadFile hs hm _ _) fun _ _ hm' _ h => keeps_pure hm' h
    · exact keeps_bind (keeps_loadFile hs hm _ _) fun _ _ hm' _ h => keeps_pure hm' h
  | some names =>
    obtain ⟨package, child⟩ := names
    dsimp only
    refine keeps_bind (hs.load package hm) ?_
    intro _ m₁ hm₁ _ _
    refine keeps_get_bind ?_
    split
    · exact keeps_fault_bind hm₁ _
    on_goal 1 => refine keeps_bind (keeps_addModule hm₁ name (by simp [Bindings.get?])) ?_
    on_goal 2 => refine keeps_bind (keeps_loadFile hs hm₁ _ _) ?_
    on_goal 3 => refine keeps_bind (keeps_loadFile hs hm₁ _ _) ?_
    -- Whichever way the module was loaded, it is then put into its package.
    all_goals
      intro loaded m₂ hm₂ _ hloaded
      refine keeps_get_bind ?_
      split
      · next holder hholder =>
        refine keeps_bind (keeps_setName hm₂ (hm₂.modules _ _ hholder child) hloaded) ?_
        exact fun _ _ hm' _ _ => keeps_pure hm' hloaded
      · exact keeps_pure hm₂ hloaded

theorem owns_module? {name : String} {globals : Bindings} (h : Builtin.module? name = some globals)
    {n : String} {v : Value} (hv : globals.get? n = some v) : m.Owns guard v := by
  obtain ⟨key, hmem⟩ := Bindings.mem_of_get? hv
  unfold Builtin.module? at h
  split at h
  · cases h
    obtain ⟨marker, -, heq⟩ := List.mem_map.mp hmem
    cases heq
    trivial
  · cases h
    rcases List.mem_append.mp hmem with hmem | hmem
    · obtain ⟨f, -, heq⟩ := List.mem_map.mp hmem
      cases heq
      trivial
    · simp only [List.mem_cons, Prod.mk.injEq, List.not_mem_nil, or_false] at hmem
      rcases hmem with ⟨-, rfl⟩ | ⟨-, rfl⟩ | ⟨-, rfl⟩ <;> trivial
  · cases h
    obtain ⟨form, -, heq⟩ := List.mem_map.mp hmem
    cases heq
    trivial
  · cases h

theorem keeps_loadModule (hs : s.Sound guard) (hm : m.Sound guard) (name : String) :
    Keeps guard m (loadModule s name) fun loaded _ => guard.Spares loaded.globals := by
  unfold loadModule
  refine keeps_get_bind ?_
  split
  · next loaded h => exact keeps_pure hm (hm.modules name loaded h)
  · split
    · next globals h => exact keeps_addModule hm name fun _ _ => owns_module? h
    · exact keeps_findAndLoad hs hm name

/-- Calls and imports keep machines sound, however deep they nest. -/
theorem services_sound (guard : Guard) (rounds n : Nat) : (services rounds n).Sound guard := by
  induction n with
  | zero => exact ⟨fun hm _ _ => keeps_throw hm _, fun _ hm => keeps_throw hm _⟩
  | succ n ih =>
    exact ⟨fun hm hcallee hargs => keeps_callValue ih hm hcallee hargs,
      fun name hm => keeps_loadModule ih hm name⟩

theorem fullServices_sound (guard : Guard) : fullServices.Sound guard :=
  services_sound guard unlimited unlimited

end StagedScript
