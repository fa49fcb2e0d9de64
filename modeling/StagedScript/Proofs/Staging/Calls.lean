import StagedScript.Proofs.Machine.Program
import StagedScript.Proofs.Machine.Fixed
import StagedScript.Proofs.Staging.Expansion

/-!
# Calls made ahead of time

What an evaluation ahead of time does, call by call: which functions it calls
with which arguments, what each call returned and what the heap was like when
it did.  The table of results is `recorded` from these calls and from nothing
else.
-/

namespace StagedScript.Staging

open Evaluation (ModuleSpec Services exec execBlock fullServices)
open Run (bind_ok bind_of_error bind_of_ok getHeap_ok pure_ok view_ok)

variable {guard : Guard} {m m' : Machine}

/-- A call that returned. -/
structure Call where
  key : ResultKey Value
  value : Value
  /-- The heap when the call returned. -/
  heap : Heap

/-- The arguments of the calls whose results go under a key. -/
def ResultKey.arguments : ResultKey Value → List Value
  | .whole _ => []
  | .variant _ args => args.values

/-- The keys under which the results of a registered function go, as its arguments were declared. -/
def keysOf (h : Heap) (r : Registration) : List (ResultKey Value) :=
  if r.args.isEmpty then [.whole r.name]
  else (expand (tupleItems? h) r.args).map (.variant r.name)

/-- The calls to make: each key with the function to be called. -/
def plan (h : Heap) (rs : Registrations) : List (Value × ResultKey Value) :=
  rs.flatMap fun r => (keysOf h r).map (r.callable, ·)

/-- Makes the planned calls one after the other. -/
def perform : List (Value × ResultKey Value) → Run (List Call)
  | [] => return []
  | (callable, key) :: planned => do
    let value ← fullServices.call callable key.arguments
    let heap ← Run.getHeap
    return ⟨key, value, heap⟩ :: (← perform planned)

/-- The results of calls, recorded in the order in which the calls returned. -/
def recorded (results : Results Value) (calls : List Call) : Results Value :=
  calls.foldl (fun results call => results.insertOn call.heap call.key call.value) results

/-- An action that returned kept the machine sound. -/
theorem Keeps.of_ok {α : Type} {x : Run α} {Q : α → Machine → Prop} (h : Keeps guard m x Q)
    {a : α} (hrun : x m = .ok a m') : m'.Sound guard ∧ m.Reaches guard m' ∧ Q a m' := by
  unfold Keeps at h
  rw [hrun] at h
  exact h

/-- A block of one statement is run like the statement. -/
theorem execBlock_single (s : Services) (scope : Scope) (stmt : Syntax.Stmt) (m : Machine) :
    execBlock s scope [stmt] m = exec s scope stmt m := by
  rw [execBlock]
  cases hexec : exec s scope stmt m with
  | ok flow m' =>
    rw [bind_of_ok hexec]
    cases flow <;> rfl
  | error interrupt m' => exact bind_of_error hexec

/-! ## The calls of an evaluation -/

/-- The first planned call returns, and then the others are made. -/
theorem perform_cons {callable : Value} {key : ResultKey Value}
    {planned : List (Value × ResultKey Value)} {calls : List Call}
    (h : perform ((callable, key) :: planned) m = .ok calls m') :
    ∃ value m₁ others, fullServices.call callable key.arguments m = .ok value m₁ ∧
      perform planned m₁ = .ok others m' ∧ calls = ⟨key, value, m₁.heap⟩ :: others := by
  rw [perform] at h
  obtain ⟨value, m₁, hcall, h⟩ := bind_ok h
  obtain ⟨heap, m₂, hheap, h⟩ := bind_ok h
  cases hheap
  obtain ⟨others, m₃, hothers, h⟩ := bind_ok h
  obtain ⟨rfl, rfl⟩ := pure_ok h
  exact ⟨value, m₁, others, hcall, hothers, rfl⟩

theorem perform_cons_of_ok {m₁ : Machine} {callable value : Value} {key : ResultKey Value}
    {planned : List (Value × ResultKey Value)} {others : List Call}
    (hcall : fullServices.call callable key.arguments m = .ok value m₁)
    (hothers : perform planned m₁ = .ok others m') :
    perform ((callable, key) :: planned) m = .ok (⟨key, value, m₁.heap⟩ :: others) m' := by
  rw [perform, bind_of_ok hcall]
  change (perform planned >>= fun others => pure (⟨key, value, m₁.heap⟩ :: others)) m₁ = _
  rw [bind_of_ok hothers]
  rfl

theorem perform_append {m₁ : Machine} {first second : List (Value × ResultKey Value)}
    {calls others : List Call} (h : perform first m = .ok calls m₁)
    (h' : perform second m₁ = .ok others m') :
    perform (first ++ second) m = .ok (calls ++ others) m' := by
  induction first generalizing m calls with
  | nil =>
    obtain ⟨rfl, rfl⟩ := pure_ok h
    exact h'
  | cons p first ih =>
    obtain ⟨value, m₂, rest, hcall, hrest, rfl⟩ := perform_cons h
    exact perform_cons_of_ok hcall (ih hrest)

theorem keys_perform {planned : List (Value × ResultKey Value)} {calls : List Call}
    (h : perform planned m = .ok calls m') : calls.map (·.key) = planned.map (·.2) := by
  induction planned generalizing m calls with
  | nil =>
    obtain ⟨rfl, -⟩ := pure_ok h
    rfl
  | cons p planned ih =>
    obtain ⟨value, m₁, others, -, hothers, rfl⟩ := perform_cons h
    rw [List.map_cons, List.map_cons, ih hothers]

/-- The calls of one function with the rest of its combinations. -/
theorem perform_of_callVariants {r : Registration} {keys : List (ArgKey Value)}
    {results table : Results Value} (h : callVariants r results keys m = .ok table m') :
    ∃ calls, perform (keys.map fun key => (r.callable, .variant r.name key)) m = .ok calls m' ∧
      table = recorded results calls := by
  induction keys generalizing m results with
  | nil =>
    obtain ⟨rfl, rfl⟩ := pure_ok h
    exact ⟨[], rfl, rfl⟩
  | cons key keys ih =>
    rw [callVariants] at h
    obtain ⟨value, m₁, hcall, hrest⟩ := bind_ok h
    obtain ⟨calls, hcalls, htable⟩ := ih hrest
    have hperform : perform ((r.callable, .variant r.name key) ::
        keys.map fun key => (r.callable, .variant r.name key)) m = .ok _ m' :=
      perform_cons_of_ok hcall hcalls
    exact ⟨_, hperform, htable⟩

theorem tupleItems?_eq {h h' : Heap} (hg : h.Grows guard h') {v : Value}
    (hv : v.Within guard h.extent) : tupleItems? h' v = tupleItems? h v := by
  cases v with
  | tuple r => exact congrArg (fun items : Array Value => some items.toList) (hg.tuple_eq hv)
  | _ => rfl

/-- Later calls do not change what the arguments of a function describe. -/
theorem keysOf_eq {h h' : Heap} (hg : h.Grows guard h') {r : Registration}
    (hr : ∀ v ∈ r.args, v.Within guard h.extent) : keysOf h' r = keysOf h r := by
  have hitems : ∀ v ∈ r.args, tupleItems? h' v = tupleItems? h v :=
    fun v hv => tupleItems?_eq hg (hr v hv)
  have hexpand : expand (tupleItems? h') r.args = expand (tupleItems? h) r.args := by
    have hall : (r.args.all fun v => (tupleItems? h' v).isNone) =
        r.args.all fun v => (tupleItems? h v).isNone := by
      rw [Bool.eq_iff_iff, List.all_eq_true, List.all_eq_true]
      exact forall₂_congr fun v hv => by rw [hitems v hv]
    have hmap : (r.args.map fun v => (tupleItems? h' v).getD [v]) =
        r.args.map fun v => (tupleItems? h v).getD [v] :=
      List.map_congr_left fun v hv => by rw [hitems v hv]
    rw [expand_eq, expand_eq, hall, hmap]
  rw [keysOf, keysOf, hexpand]

theorem mem_product {α : Type} {dimensions : List (List α)} {choice : List α}
    (h : choice ∈ product dimensions) : ∀ a ∈ choice, ∃ d ∈ dimensions, a ∈ d := by
  induction dimensions generalizing choice with
  | nil =>
    obtain rfl := List.mem_singleton.mp h
    simp
  | cons candidates dimensions ih =>
    obtain ⟨first, hfirst, hrest⟩ := List.mem_flatMap.mp h
    obtain ⟨rest, hmem, rfl⟩ := List.mem_map.mp hrest
    intro a ha
    rcases List.mem_cons.mp ha with rfl | ha
    · exact ⟨candidates, by simp, hfirst⟩
    · obtain ⟨d, hd, had⟩ := ih hmem a ha
      exact ⟨d, by simp [hd], had⟩

/-- The arguments of planned calls are values of the machine. -/
theorem owns_arguments (hm : m.Sound guard) {r : Registration}
    (hr : ∀ v ∈ r.args, m.Owns guard v) {key : ResultKey Value} (hk : key ∈ keysOf m.heap r) :
    ∀ v ∈ key.arguments, m.Owns guard v := by
  unfold keysOf at hk
  split at hk
  · obtain rfl := List.mem_singleton.mp hk
    simp [ResultKey.arguments]
  · obtain ⟨args, hargs, rfl⟩ := List.mem_map.mp hk
    rw [expand_eq] at hargs
    split at hargs
    · obtain ⟨v, hv, rfl⟩ := List.mem_map.mp hargs
      intro w hw
      obtain rfl := List.mem_singleton.mp hw
      exact hr _ hv
    · obtain ⟨choice, hchoice, rfl⟩ := List.mem_map.mp hargs
      intro w hw
      obtain ⟨d, hd, hwd⟩ := mem_product hchoice w hw
      obtain ⟨v, hv, rfl⟩ := List.mem_map.mp hd
      cases v with
      | tuple t => exact hm.heap.tuple_within (Array.mem_toList_iff.mp hwd)
      | _ =>
        obtain rfl := List.mem_singleton.mp hwd
        exact hr _ hv

/-- Calls that were all made keep the machine sound, and what each returned is a value of the
machine that it left. -/
theorem sound_of_perform (hm : m.Sound guard) {planned : List (Value × ResultKey Value)}
    {calls : List Call} (h : perform planned m = .ok calls m')
    (hp : ∀ p ∈ planned, m.Owns guard p.1 ∧ ∀ v ∈ p.2.arguments, m.Owns guard v) :
    m'.Sound guard ∧ m.Reaches guard m' ∧
      ∀ call ∈ calls, call.heap.Sound guard ∧ m.heap.Grows guard call.heap ∧
        call.heap.Grows guard m'.heap ∧ call.value.Within guard call.heap.extent := by
  induction planned generalizing m calls with
  | nil =>
    obtain ⟨rfl, rfl⟩ := pure_ok h
    exact ⟨hm, .refl m, by simp⟩
  | cons p planned ih =>
    obtain ⟨value, m₁, others, hcall, hothers, rfl⟩ := perform_cons h
    obtain ⟨hcallable, hargs⟩ := hp p List.mem_cons_self
    obtain ⟨hm₁, hreach₁, hvalue⟩ :=
      Keeps.of_ok ((fullServices_sound guard).call hm hcallable hargs) hcall
    obtain ⟨hm₂, hreach₂, hcalls⟩ := ih hm₁ hothers fun p hmem =>
      ⟨hreach₁.owns (hp p (by simp [hmem])).1,
        fun v hv => hreach₁.owns ((hp p (by simp [hmem])).2 v hv)⟩
    refine ⟨hm₂, hreach₁.trans hreach₂, ?_⟩
    intro call hmem
    rcases List.mem_cons.mp hmem with rfl | hmem
    · exact ⟨hm₁.heap, hreach₁.heap, hreach₂.heap, hvalue⟩
    · obtain ⟨hs, hg, hg', hv⟩ := hcalls call hmem
      exact ⟨hs, hreach₁.heap.trans hg, hg', hv⟩

def OwnsAll (guard : Guard) (m : Machine) (rs : Registrations) : Prop :=
  ∀ r ∈ rs, m.Owns guard r.callable ∧ ∀ v ∈ r.args, m.Owns guard v

theorem OwnsAll.planned (hm : m.Sound guard) {rs : Registrations} (hrs : OwnsAll guard m rs) :
    ∀ p ∈ plan m.heap rs, m.Owns guard p.1 ∧ ∀ v ∈ p.2.arguments, m.Owns guard v := by
  intro p hp
  obtain ⟨r, hr, hmem⟩ := List.mem_flatMap.mp hp
  obtain ⟨key, hkey, rfl⟩ := List.mem_map.mp hmem
  exact ⟨(hrs r hr).1, owns_arguments hm (hrs r hr).2 hkey⟩

theorem plan_eq {h h' : Heap} (hg : h.Grows guard h') {rs : Registrations}
    (hrs : ∀ r ∈ rs, ∀ v ∈ r.args, v.Within guard h.extent) : plan h' rs = plan h rs := by
  unfold plan
  rw [List.flatMap_congr fun r hr => by rw [keysOf_eq hg (hrs r hr)]]

/-- The evaluation of registered functions makes the planned calls and records what they
return. -/
theorem perform_of_callAll (hm : m.Sound guard) {rs : Registrations}
    {results table : Results Value} (hrs : OwnsAll guard m rs)
    (h : callAll results rs m = .ok table m') :
    ∃ calls, perform (plan m.heap rs) m = .ok calls m' ∧ table = recorded results calls := by
  induction rs generalizing m results with
  | nil =>
    obtain ⟨rfl, rfl⟩ := pure_ok h
    exact ⟨[], rfl, rfl⟩
  | cons r rs ih =>
    have hfirst : ∃ calls m₁ results₁,
        perform ((keysOf m.heap r).map (r.callable, ·)) m = .ok calls m₁ ∧
          results₁ = recorded results calls ∧ callAll results₁ rs m₁ = .ok table m' := by
      rw [callAll] at h
      unfold keysOf
      split at h
      · next hempty =>
        obtain ⟨value, m₁, hcall, hrest⟩ := bind_ok h
        rw [if_pos hempty]
        have hperform : perform [(r.callable, .whole r.name)] m = .ok _ m₁ :=
          perform_cons_of_ok hcall rfl
        exact ⟨_, m₁, _, hperform, rfl, hrest⟩
      · next hempty =>
        change (callVariants r results (expand (tupleItems? m.heap) r.args) >>= fun results =>
          callAll results rs) m = .ok table m' at h
        obtain ⟨results₁, m₁, hvariants, hrest⟩ := bind_ok h
        obtain ⟨calls, hcalls, hresults⟩ := perform_of_callVariants hvariants
        rw [if_neg hempty, List.map_map]
        exact ⟨calls, m₁, results₁, hcalls, hresults, hrest⟩
    obtain ⟨calls, m₁, results₁, hcalls, rfl, hrest⟩ := hfirst
    have hr := hrs r (by simp)
    obtain ⟨hm₁, hreach, -⟩ := sound_of_perform hm hcalls fun p hp => by
      obtain ⟨key, hkey, rfl⟩ := List.mem_map.mp hp
      exact ⟨hr.1, owns_arguments hm hr.2 hkey⟩
    obtain ⟨others, hothers, htable⟩ := ih hm₁
      (fun r' hr' => ⟨hreach.owns (hrs r' (by simp [hr'])).1,
        fun v hv => hreach.owns ((hrs r' (by simp [hr'])).2 v hv)⟩) hrest
    refine ⟨calls ++ others, ?_, ?_⟩
    · rw [plan_eq hreach.heap fun r' hr' => (hrs r' (by simp [hr'])).2] at hothers
      exact perform_append hcalls hothers
    · rw [htable, recorded, recorded, recorded, List.foldl_append]

/-- What an evaluation ahead of time did. -/
structure Trace where
  /-- The machine in which the module had run. -/
  ready : Machine
  /-- What the module had registered. -/
  registered : Registrations
  /-- The calls that were made then. -/
  calls : List Call
  /-- The heap after the last call. -/
  heap : Heap

/-- What the evaluation ahead of time of a module does, if nothing fails. -/
def trace? (spec : ModuleSpec) (source : String) (m : Machine) : Option Trace :=
  match collect spec source { m with ahead := true } with
  | .ok (.ok registered) ready =>
    match perform (plan ready.heap registered) ready with
    | .ok calls last => some ⟨ready, registered, calls, last.heap⟩
    | .error _ _ => none
  | _ => none

theorem keeps_collect (hm : m.Sound guard) (spec : ModuleSpec) (source : String) :
    Keeps guard m (collect spec source) fun result m' =>
      ∀ rs, result = .ok rs → rs = m'.registrations := by
  have hempty : ({ m with registrations := [] } : Machine).Sound guard :=
    ⟨hm.heap, hm.modules, by simp, by simp, by simp, by simp⟩
  have hrun := keeps_execSource (fullServices_sound guard) hempty spec source
  unfold collect
  refine keeps_bind (P := fun _ m' => m' = { m with registrations := [] })
    ⟨hempty, ⟨.refl _, rfl, rfl, rfl, rfl, rfl⟩, rfl⟩ ?_
  rintro _ _ hm₁ - rfl
  refine keeps_bind (P := fun _ _ => True) ?_ ?_
  · unfold runModule
    refine keeps_bind hrun ?_
    intro result m₂ hm₂ _ _
    split <;> exact keeps_pure hm₂ trivial
  · intro result m₂ hm₂ _ _
    split
    · refine keeps_get_bind (keeps_pure hm₂ ?_)
      rintro rs hrs
      exact (Except.ok.inj hrs).symm
    · exact keeps_pure hm₂ fun _ h => nomatch h

/-- What a trace says of machines and calls that are sound. -/
structure Trace.Sound (guard : Guard) (t : Trace) : Prop where
  ready : t.ready.Sound guard
  registered : OwnsAll guard t.ready t.registered
  names : (t.registered.map (·.name)).Nodup
  keys : t.calls.map (·.key) = t.registered.flatMap (keysOf t.ready.heap)
  calls : ∀ call ∈ t.calls, call.heap.Sound guard ∧ t.ready.heap.Grows guard call.heap ∧
    call.heap.Grows guard t.heap ∧ call.value.Within guard call.heap.extent

/-- A successful evaluation ahead of time has made all planned calls, and its table is what they
returned. -/
theorem trace_of_precompute (hm : m.Sound guard) {spec : ModuleSpec} {source : String}
    {table : Results Value} (h : precompute spec source m = .ok (.ok table) m') :
    ∃ t, trace? spec source m = some t ∧ t.Sound guard ∧
      t.ready.heap.digest = m.heap.digest ∧ t.heap = m'.heap ∧ table = recorded [] t.calls := by
  have hahead : ({ m with ahead := true } : Machine).Sound guard :=
    ⟨hm.heap, hm.modules, hm.callables, hm.args, hm.named, hm.names⟩
  unfold precompute aheadOfTime at h
  obtain ⟨_, _, hget, h⟩ := bind_ok h
  cases hget
  dsimp only [Run.bracket] at h
  split at h
  · next result last hrun =>
    cases h
    obtain ⟨result, ready, hcollect, hrest⟩ := bind_ok hrun
    obtain ⟨hready, hreached, hregistered⟩ :=
      Keeps.of_ok (keeps_collect hahead spec source) hcollect
    cases result with
    | error failure => cases hrest
    | ok registered =>
      obtain ⟨table', m₁, hcalls, hdone⟩ := bind_ok hrest
      obtain ⟨htable, rfl⟩ := pure_ok hdone
      obtain rfl := Except.ok.inj htable
      obtain rfl := hregistered registered rfl
      have howned : OwnsAll guard ready ready.registrations :=
        fun r hr => ⟨hready.callables r hr, hready.args r hr⟩
      obtain ⟨calls, hperform, htable⟩ := perform_of_callAll hready howned hcalls
      have hkeys : calls.map (·.key) = ready.registrations.flatMap (keysOf ready.heap) := by
        rw [keys_perform hperform, plan, List.map_flatMap]
        exact List.flatMap_congr fun r _ => by simp [Function.comp_def]
      refine ⟨⟨ready, ready.registrations, calls, m₁.heap⟩, ?_,
        ⟨hready, howned, hready.names, hkeys,
          (sound_of_perform hready hperform (howned.planned hready)).2.2⟩, hreached.heap.digest, rfl, htable⟩
      simp only [trace?, hcollect, hperform]
  · cases h

/-- No variable has to stay as it is. -/
def noGuard : Guard :=
  fun _ _ => False

/-- A machine in which nothing has run yet is sound. -/
theorem sound_ofPaths (files : FileTree) (paths : List String) (digest : Digest) :
    (Machine.ofPaths files paths digest).Sound noGuard := by
  have hloaded : (ModuleCache.ofPaths paths).loaded = [] := by
    have hadd (c : ModuleCache) (path : String) : (c.addPath path).loaded = c.loaded := by
      unfold ModuleCache.addPath
      split <;> rfl
    have hfold (c : ModuleCache) : (paths.foldl ModuleCache.addPath c).loaded = c.loaded := by
      induction paths generalizing c with
      | nil => rfl
      | cons path paths ih => rw [List.foldl_cons, ih, hadd]
    exact hfold {}
  constructor
  · constructor <;> simp [Machine.ofPaths, noGuard]
  · intro name loaded h
    change (ModuleCache.ofPaths paths).loaded.lookup name = some loaded at h
    rw [hloaded] at h
    cases h
  · simp [Machine.ofPaths]
  · simp [Machine.ofPaths]
  · simp [Machine.ofPaths]
  · simp [Machine.ofPaths]

end StagedScript.Staging
