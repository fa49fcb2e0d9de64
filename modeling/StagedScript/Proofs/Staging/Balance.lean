import StagedScript.Proofs.Machine.Regime.Program

/-!
# Every run gives back what it borrowed

Calls are counted while they are active, the names of modules are noted while
their files run, and code counts as evaluated ahead of time only for a while.
However a run ends, these three are as they were before it, and never were more
calls active at once than the limit allows: `run_gives_back`.
-/

namespace StagedScript

open Evaluation (ModuleSpec Services execSource fullServices maxDepth)
open Run Staging

/-- The machine counts as many active calls, notes the same running modules and is in the same
phase as before, and no more calls were active in between than before or than the limit allows. -/
structure Machine.Balanced (m m' : Machine) : Prop where
  depth : m'.depth = m.depth
  loading : m'.modules.loading = m.modules.loading
  ahead : m'.ahead = m.ahead
  rises : m.peak ≤ m'.peak
  limited : m'.peak ≤ max m.peak maxDepth

/-- The regime under which every run is balanced. -/
def balance : Regime where
  holds _ := True
  leads := Machine.Balanced
  admits _ := True

namespace Machine.Balanced

variable {m m' m'' : Machine}

/-- A change of anything else. -/
theorem of_eq (hdepth : m'.depth = m.depth) (hloading : m'.modules.loading = m.modules.loading)
    (hahead : m'.ahead = m.ahead) (hpeak : m'.peak = m.peak) : m.Balanced m' :=
  ⟨hdepth, hloading, hahead, Nat.le_of_eq hpeak.symm, hpeak ▸ Nat.le_max_left _ _⟩

theorem trans (first : m.Balanced m') (second : m'.Balanced m'') : m.Balanced m'' where
  depth := second.depth.trans first.depth
  loading := second.loading.trans first.loading
  ahead := second.ahead.trans first.ahead
  rises := Nat.le_trans first.rises second.rises
  limited := by
    have hfirst := first.limited
    have hsecond := second.limited
    omega

/-- A call that was entered below the limit is left with the count that it was entered with. -/
theorem leaveCall (hdepth : m.depth < maxDepth) (h : m.enterCall.Balanced m') :
    m.Balanced m'.leaveCall where
  depth := by
    have hinner : m'.depth = m.depth + 1 := h.depth
    simp [Machine.leaveCall, hinner]
  loading := h.loading
  ahead := h.ahead
  rises := Nat.le_trans (Nat.le_max_left _ _) h.rises
  limited := by
    have hlimited : m'.peak ≤ max (max m.peak (m.depth + 1)) maxDepth := h.limited
    change m'.peak ≤ max m.peak maxDepth
    omega

theorem endLoading {modules : ModuleCache} {name : String} (completed : Bool)
    (hbegin : m.modules.beginLoading name = .ok modules)
    (h : Machine.Balanced { m with modules := modules } m') :
    m.Balanced { m' with modules := m'.modules.endLoading name completed } where
  depth := h.depth
  loading := by
    have hloading : m'.modules.loading = modules.loading := h.loading
    change (m'.modules.loading.reverse.erase name).reverse = m.modules.loading
    rw [hloading]
    unfold ModuleCache.beginLoading at hbegin
    split at hbegin
    · cases hbegin
    · cases hbegin
      simp
  ahead := h.ahead
  rises := h.rises
  limited := h.limited

end Machine.Balanced

instance : balance.Lawful where
  refl _ := .of_eq rfl rfl rfl rfl
  trans := Machine.Balanced.trans
  holds_of_leads _ _ := trivial
  contents _ _ _ := .of_eq rfl rfl rfl rfl
  printed _ _ := .of_eq rfl rfl rfl rfl
  defined _ _ _ := .of_eq rfl rfl rfl rfl
  registered _ _ := .of_eq rfl rfl rfl rfl
  kept _ _ _ := .of_eq rfl rfl rfl rfl
  entered _ _ := trivial
  left _ hdepth h := h.leaveCall hdepth
  begun _ _ := trivial
  finished completed _ hbegin h := h.endLoading completed hbegin
  body _ _ _ _ := trivial
  file _ _ _ _ _ := trivial

/-- An evaluation ahead of time ends in the phase in which it began. -/
theorem balanced_aheadOfTime {α : Type} {x : Run α} (hx : Respects balance x) :
    Respects balance (aheadOfTime x) :=
  respects_aheadOfTime (fun _ => trivial)
    (fun h => ⟨h.depth, h.loading, rfl, h.rises, h.limited⟩) hx

/-! ## What a host does -/

/-- What a host can do with a machine. -/
inductive HostAction
  | call (callee : Value) (args : List Value)
  | load (name : String)
  | exec (spec : ModuleSpec) (source : String)
  | loadRegistrations (spec : ModuleSpec) (source : String)
  | precompute (spec : ModuleSpec) (source : String)
  /-- Other actions, with code counting as evaluated ahead of time for as long as they take. -/
  | guarded (actions : List HostAction)

/-- Runs an action, whatever its outcome. -/
def settled {α : Type} (x : Run α) : Run Unit := fun m =>
  match x m with
  | .ok _ m' => .ok () m'
  | .error _ m' => .ok () m'

mutual

/-- What an action of a host does to a machine.  Its outcome is for the host. -/
def HostAction.run : HostAction → Run Unit
  | .call callee args => settled (fullServices.call callee args)
  | .load name => settled (fullServices.load name)
  | .exec spec source => settled (runModule spec source)
  | .loadRegistrations spec source => settled (Staging.loadRegistrations spec source)
  | .precompute spec source => settled (Staging.precompute spec source)
  | .guarded actions => aheadOfTime (runActions actions)

def runActions : List HostAction → Run Unit
  | [] => pure ()
  | action :: actions => do
    action.run
    runActions actions

end

mutual

/-- The names under which an action of a host runs sources of the host. -/
def HostAction.runNames : HostAction → List String
  | .call _ _ | .load _ => []
  | .exec spec _ | .loadRegistrations spec _ | .precompute spec _ => [spec.name]
  | .guarded actions => runNames actions

def runNames : List HostAction → List String
  | [] => []
  | action :: actions => action.runNames ++ runNames actions

end

section Host

variable {r : Regime}

theorem respects_settled {α : Type} {x : Run α} (hx : Respects r x) : Respects r (settled x) := by
  intro m hm
  have h := hx m hm
  unfold RespectsFrom settled at *
  cases hrun : x m with
  | ok a m' =>
    rw [hrun] at h
    exact h
  | error e m' =>
    rw [hrun] at h
    exact h

variable [r.Steady]

theorem respects_precompute (hs : fullServices.Respect r)
    (hahead : ∀ {α : Type} {x : Run α}, Respects r x → Respects r (aheadOfTime x))
    {spec : ModuleSpec} {source : String}
    (hexec : Respects r (execSource fullServices spec source)) :
    Respects r (Staging.precompute spec source) := by
  refine hahead (respects_bind (respects_collect hexec) fun result => ?_)
  split
  · exact respects_map _ (respects_callAll hs _ _)
  · exact respects_pure _

mutual

/-- The actions of a host lead where they may if its sources do. -/
theorem respects_host (hs : fullServices.Respect r)
    (hahead : ∀ {α : Type} {x : Run α}, Respects r x → Respects r (aheadOfTime x))
    (action : HostAction)
    (hexec : ∀ spec source, spec.name ∈ action.runNames →
      Respects r (execSource fullServices spec source)) :
    Respects r action.run := by
  match action with
  | .call callee args =>
    rw [HostAction.run]
    exact respects_settled (hs.call callee args)
  | .load name =>
    rw [HostAction.run]
    exact respects_settled (hs.load name)
  | .exec spec source =>
    rw [HostAction.run]
    exact respects_settled (respects_runModule (hexec spec source (by simp [HostAction.runNames])))
  | .loadRegistrations spec source =>
    rw [HostAction.run]
    exact respects_settled
      (hahead (respects_collect (hexec spec source (by simp [HostAction.runNames]))))
  | .precompute spec source =>
    rw [HostAction.run]
    exact respects_settled
      (respects_precompute hs hahead (hexec spec source (by simp [HostAction.runNames])))
  | .guarded actions =>
    rw [HostAction.run]
    rw [HostAction.runNames] at hexec
    exact hahead (respects_runActions hs hahead actions hexec)

theorem respects_runActions (hs : fullServices.Respect r)
    (hahead : ∀ {α : Type} {x : Run α}, Respects r x → Respects r (aheadOfTime x))
    (actions : List HostAction)
    (hexec : ∀ spec source, spec.name ∈ runNames actions →
      Respects r (execSource fullServices spec source)) :
    Respects r (runActions actions) := by
  match actions with
  | [] =>
    rw [runActions]
    exact respects_pure _
  | action :: actions =>
    rw [runActions]
    rw [runNames] at hexec
    refine respects_bind (respects_host hs hahead action fun spec source h => ?_) fun _ =>
      respects_runActions hs hahead actions fun spec source h => ?_
    · exact hexec spec source (List.mem_append_left _ h)
    · exact hexec spec source (List.mem_append_right _ h)

end

end Host

/-- A machine that a host can have brought about: it started with nothing loaded and went through
actions of the host, of which the last ones may stand inside of evaluations ahead of time that have
not ended. -/
inductive Machine.Reachable : Machine → Prop
  | start (files : FileTree) (paths : List String) (digest : Digest) :
      Reachable (.ofPaths files paths digest)
  | act {m m' : Machine} (action : HostAction) (hm : Reachable m) (h : action.run m = .ok () m') :
      Reachable m'
  | enter {m : Machine} (hm : Reachable m) : Reachable { m with ahead := true }

mutual

/-- An action of a host always comes to its end. -/
theorem HostAction.run_ok (action : HostAction) (m : Machine) :
    ∃ m', action.run m = .ok () m' := by
  have hsettled {α : Type} (x : Run α) : ∃ m', settled x m = .ok () m' := by
    unfold settled
    cases x m with
    | ok a m' => exact ⟨m', rfl⟩
    | error e m' => exact ⟨m', rfl⟩
  match action with
  | .call callee args => rw [HostAction.run]; exact hsettled _
  | .load name => rw [HostAction.run]; exact hsettled _
  | .exec spec source => rw [HostAction.run]; exact hsettled _
  | .loadRegistrations spec source => rw [HostAction.run]; exact hsettled _
  | .precompute spec source => rw [HostAction.run]; exact hsettled _
  | .guarded actions =>
    obtain ⟨m', hrun⟩ := runActions_ok actions { m with ahead := true }
    refine ⟨{ m' with ahead := m.ahead }, ?_⟩
    rw [HostAction.run]
    change bracket (fun m => { m with ahead := true }) (fun m' => { m' with ahead := m.ahead })
      (runActions actions) m = _
    rw [bracket, hrun]

theorem runActions_ok (actions : List HostAction) (m : Machine) :
    ∃ m', runActions actions m = .ok () m' := by
  match actions with
  | [] =>
    rw [runActions]
    exact ⟨m, rfl⟩
  | action :: actions =>
    obtain ⟨m₁, hrun⟩ := action.run_ok m
    obtain ⟨m', hrest⟩ := runActions_ok actions m₁
    refine ⟨m', ?_⟩
    rw [runActions, Run.bind_of_ok hrun]
    exact hrest

end

/-- Every action of a host is balanced, whatever its outcome. -/
theorem balanced_of_run {m m' : Machine} {action : HostAction} (h : action.run m = .ok () m') :
    m.Balanced m' := by
  have hexec (spec : ModuleSpec) (source : String) :
      Respects balance (execSource fullServices spec source) :=
    respects_execSource (services_respect balance _ _) spec fun _ _ _ _ => trivial
  have hrun := respects_host (services_respect balance _ _) balanced_aheadOfTime action
    (fun spec source _ => hexec spec source) m trivial
  rw [RespectsFrom, h] at hrun
  exact hrun

/-- A host never sees a machine in which more calls were active than the limit allows. -/
theorem Machine.Reachable.peak_le {m : Machine} (hm : m.Reachable) : m.peak ≤ maxDepth := by
  induction hm with
  | start files paths digest => exact Nat.zero_le _
  | act action hm h ih =>
    have hlimited := (balanced_of_run h).limited
    omega
  | enter hm ih => exact ih

/-- Whatever a host does, and however it ends: afterwards as many calls are active, the same
modules are noted as running in the same order, and the phase is the same as before; and up to
then never more calls were active at once than the limit allows. -/
theorem run_gives_back {m : Machine} (hm : m.Reachable) (action : HostAction) :
    ∃ m', action.run m = .ok () m' ∧ m'.depth = m.depth ∧
      m'.modules.loading = m.modules.loading ∧ m'.ahead = m.ahead ∧ m'.peak ≤ 64 := by
  obtain ⟨m', hrun⟩ := action.run_ok m
  have hbalanced := balanced_of_run hrun
  have hlimited : m'.peak ≤ maxDepth := (Machine.Reachable.act action hm hrun).peak_le
  exact ⟨m', hrun, hbalanced.depth, hbalanced.loading, hbalanced.ahead, hlimited⟩

/-- A module whose function calls itself without an end, inside of two evaluations ahead of
time. -/
theorem run_gives_back_endless :
    ∃ m', (HostAction.guarded [.exec ⟨"__main__", none, none⟩ "def f(n):\n    return f(n + 1)\nf(0)\n"]).run
        { Machine.ofPaths {} [] with ahead := true } = .ok () m' ∧
      m'.depth = 0 ∧ m'.modules.loading = [] ∧ m'.ahead = true ∧ m'.peak ≤ 64 :=
  run_gives_back (.enter (.start {} [] .standard)) _

-- The limit is reached.
example :
    (match (HostAction.exec ⟨"__main__", none, none⟩
        "def f(n):\n    return f(n + 1)\nf(0)\n").run (.ofPaths {} []) with
      | .ok _ m | .error _ m => (m.depth, m.peak)) = (0, 64) := by decide +kernel

end StagedScript
