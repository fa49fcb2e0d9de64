import StagedScript.Proofs.Machine.Loading
import StagedScript.Proofs.Staging.Balance

/-!
# The modules of a host are safe

A host may run sources under any names, and these may import anything.  For all
names under which it runs no source itself, the modules are safe at any time:
`modules_stay_safe`.
-/

namespace StagedScript

open Run Evaluation Staging

variable {direct : String → Prop}

/-- The regime under which machines stay tidy. -/
def upkeep (direct : String → Prop) : Regime where
  holds := Machine.Tidy direct
  leads m m' := m.Tidy direct → m'.Tidy direct
  admits _ := True

theorem Machine.Tidy.of_eq {m m' : Machine} (hm : m.Tidy direct) (hmodules : m'.modules = m.modules)
    (hfiles : m'.files = m.files) : m'.Tidy direct :=
  (Machine.Onward.of_eq hmodules hfiles).tidy hm

instance : (upkeep direct).Steady where
  refl _ hm := hm
  trans first second hm := second (first hm)
  holds_of_leads hm h := h hm
  contents _ _ _ hm := hm.of_eq rfl rfl
  printed _ _ hm := hm.of_eq rfl rfl
  defined _ _ _ hm := hm.of_eq rfl rfl
  registered _ _ hm := hm.of_eq rfl rfl
  entered hm _ := hm.of_eq rfl rfl
  left _ _ h hm := (h (hm.of_eq rfl rfl)).of_eq rfl rfl
  body _ _ _ _ := trivial

theorem Respects.upkeep {α : Type} {x : Run α} (hx : Respects (tidiness direct) x) :
    Respects (upkeep direct) x := by
  intro m hm
  have h := hx m hm
  unfold RespectsFrom at *
  cases hrun : x m with
  | ok a m' =>
    rw [hrun] at h
    exact h.tidy
  | error e m' =>
    rw [hrun] at h
    exact h.tidy

theorem fullServices_tidiness : fullServices.Respect (tidiness direct) :=
  (services_loadTidily direct unlimited unlimited).respect

theorem fullServices_upkeep : fullServices.Respect (upkeep direct) where
  call callee args := (fullServices_tidiness.call callee args).upkeep
  load name := (fullServices_tidiness.load name).upkeep

theorem upkeep_aheadOfTime {α : Type} {x : Run α} (hx : Respects (upkeep direct) x) :
    Respects (upkeep direct) (aheadOfTime x) :=
  respects_aheadOfTime (fun hm => hm.of_eq rfl rfl)
    (fun h hm => (h (hm.of_eq rfl rfl)).of_eq rfl rfl) hx

/-- A host may run any source under a name of its own. -/
theorem upkeep_execSource {spec : ModuleSpec} (hname : direct spec.name) (source : String) :
    Respects (upkeep direct) (execSource fullServices spec source) := by
  intro m hm
  have h := execSource_ends fullServices_tidiness hm spec source
  unfold Ends at h
  unfold RespectsFrom
  cases hrun : execSource fullServices spec source m with
  | error e m' =>
    rw [hrun] at h
    exact h.tidy
  | ok result m' =>
    rw [hrun] at h
    cases result with
    | error f => exact h.tidy
    | ok loaded =>
      obtain ⟨m₂, hm₂, rfl⟩ := h
      exact fun hm => (hm₂.tidy hm).keep fun hnot => absurd hname hnot

theorem Machine.Tidy.ofPaths (files : FileTree) (paths : List String) (digest : Digest) :
    (Machine.ofPaths files paths digest).Tidy direct := by
  have hfold (c : ModuleCache) (hc : c.history = [] ∧ c.loading = []) :
      (paths.foldl ModuleCache.addPath c).history = [] ∧
        (paths.foldl ModuleCache.addPath c).loading = [] := by
    induction paths generalizing c with
    | nil => exact hc
    | cons path paths ih =>
      apply ih
      unfold ModuleCache.addPath
      split
      · exact hc
      · exact hc
  obtain ⟨hhistory, hloading⟩ := hfold {} ⟨rfl, rfl⟩
  refine ⟨.ofPaths paths, ?_, fun name hname => ?_⟩
  · change LegalHistory direct (ModuleCache.ofPaths paths).history
    rw [ModuleCache.ofPaths, hhistory]
    trivial
  · change name ∈ (ModuleCache.ofPaths paths).loading at hname
    rw [ModuleCache.ofPaths, hloading] at hname
    cases hname

/-- Whatever a host does, and whatever the files of its modules do: the module cache holds what its
history leaves behind, which is safe at every point of it for all names under which the host ran no
source. -/
theorem modules_stay_safe (files : FileTree) (paths : List String) (digest : Digest)
    (actions : List HostAction) :
    ∃ m, runActions actions (.ofPaths files paths digest) = .ok () m ∧ m.modules.Faithful ∧
      SafeHistory (· ∈ runNames actions) m.modules.history := by
  obtain ⟨m, hrun⟩ := runActions_ok actions (.ofPaths files paths digest)
  have hstart : (Machine.ofPaths files paths digest).Tidy (· ∈ runNames actions) :=
    .ofPaths files paths digest
  have hactions := respects_runActions fullServices_upkeep upkeep_aheadOfTime actions
    (fun spec source hname => upkeep_execSource hname source) _ hstart
  unfold RespectsFrom at hactions
  rw [hrun] at hactions
  have hm := hactions hstart
  exact ⟨m, hrun, hm.faithful, hm.legal.safe⟩

-- Two files that import each other: neither of them comes to its end.
example :
    (match runActions [.load "a"] (.ofPaths
        ⟨[(["a.ath"], .file "import b\n".toUTF8), (["b.ath"], .file "import a\n".toUTF8)], []⟩
        ["."]) with
      | .ok _ m | .error _ m => m.modules.history) =
      [.ended "a" false, .ended "b" false, .begun "b", .begun "a"] := by decide +kernel

end StagedScript
