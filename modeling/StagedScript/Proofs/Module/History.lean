import StagedScript.Module.Cache
import Mathlib.Data.List.Infix
import Mathlib.Data.List.Nodup
import Mathlib.Data.List.TakeWhile

/-!
# The history of the modules

A module cache notes what happens to modules.  From these events follows which
modules are loaded and which ones are running at any time, and a history in
which no event stood against the events before it is safe: packages are loaded
before what they hold, a loaded module stays the same, the file of a module
comes to its end at most once and leaves nothing behind otherwise, and no
module runs inside of itself.
-/

namespace StagedScript

/-- The module that a name leads to after events, of which the latest comes first. -/
def moduleAfter (name : String) : List ModuleEvent → Option LoadedModule
  | [] => none
  | .kept other module :: past => if other = name then some module else moduleAfter name past
  | .begun _ :: past | .ended _ _ :: past => moduleAfter name past

/-- The names of the modules that are running after events, outermost first. -/
def runningAfter : List ModuleEvent → List String
  | [] => []
  | .begun name :: past => runningAfter past ++ [name]
  | .kept _ _ :: past => runningAfter past
  | .ended name _ :: past => ((runningAfter past).reverse.erase name).reverse

/-- A cache holds what its history leaves behind. -/
structure ModuleCache.Faithful (c : ModuleCache) : Prop where
  loaded : ∀ name, c.get? name = moduleAfter name c.history
  running : c.loading = runningAfter c.history

/-- A history that is safe at every point of it, for all names but the `direct` ones, which a host
may have run itself. -/
structure SafeHistory (direct : String → Prop) (history : List ModuleEvent) : Prop where
  /-- If a module is loaded, then so are the packages around it. -/
  packaged : ∀ past outer inner, past <:+ history →
    (∀ part rest, inner = part ∨ inner = part ++ "." ++ rest → ¬ direct (outer ++ "." ++ part)) →
    (moduleAfter (outer ++ "." ++ inner) past).isSome → (moduleAfter outer past).isSome
  /-- Once a module is loaded it stays the same. -/
  settled : ∀ past later name module, past <:+ later → later <:+ history → ¬ direct name →
    moduleAfter name past = some module → moduleAfter name later = some module
  /-- The file of a module comes to its end at most once. -/
  once : ∀ name, ¬ direct name → history.count (.ended name true) ≤ 1
  /-- If the file of a module did not come to its end, the module is not loaded. -/
  cleared : ∀ past name, .ended name false :: past <:+ history → ¬ direct name →
    moduleAfter name (.ended name false :: past) = none
  /-- No module runs inside of itself. -/
  nested : ∀ past, past <:+ history → (runningAfter past).Nodup

theorem splitName?_eq_some_iff {name outer child : String} :
    splitName? name = some (outer, child) ↔
      name = outer ++ "." ++ child ∧ '.' ∉ child.toList := by
  have hpart : ∀ c, c ∈ name.toList.reverse.takeWhile (· != '.') → c ≠ '.' := by
    intro c hc
    simpa using List.mem_takeWhile_imp hc
  have hwhole := List.takeWhile_append_dropWhile (p := (· != '.')) (l := name.toList.reverse)
  constructor
  · intro h
    unfold splitName? at h
    dsimp only at h
    split at h
    · next c before hdrop =>
      obtain ⟨rfl, rfl⟩ := Prod.mk.inj (Option.some.inj h)
      have hc : c = '.' := by
        have hhead := List.head?_dropWhile_not (· != '.') name.toList.reverse
        rw [hdrop] at hhead
        simpa using hhead
      rw [hdrop, hc] at hwhole
      refine ⟨?_, fun hmem => hpart '.' (by simpa using hmem) rfl⟩
      rw [← String.toList_inj, ← List.reverse_inj]
      simp only [String.toList_append, String.toList_ofList, List.reverse_append,
        List.reverse_reverse]
      exact hwhole.symm
    · cases h
  · rintro ⟨rfl, hchild⟩
    have hall : ∀ c ∈ child.toList.reverse, (c != '.') = true := by
      intro c hc
      have hne : c ≠ '.' := fun heq => hchild (heq ▸ List.mem_reverse.mp hc)
      simpa using hne
    have hreverse : (outer ++ "." ++ child).toList.reverse =
        child.toList.reverse ++ '.' :: outer.toList.reverse := by simp
    have hdrop : (child.toList.reverse ++ '.' :: outer.toList.reverse).dropWhile (· != '.') =
        '.' :: outer.toList.reverse := by
      rw [List.dropWhile_append_of_pos hall]
      rfl
    have htake : (child.toList.reverse ++ '.' :: outer.toList.reverse).takeWhile (· != '.') =
        child.toList.reverse := by
      rw [List.takeWhile_append_of_pos hall]
      simp
    unfold splitName?
    simp only [hreverse, hdrop, htake, List.reverse_reverse, String.ofList_toList]

theorem splitName?_eq_none {name : String} (h : splitName? name = none) : '.' ∉ name.toList := by
  unfold splitName? at h
  dsimp only at h
  split at h
  · cases h
  · next hdrop =>
    intro hmem
    have hdot := List.dropWhile_eq_nil_iff.mp hdrop '.' (List.mem_reverse.mpr hmem)
    simp at hdot

theorem length_lt_of_splitName? {name outer child : String}
    (h : splitName? name = some (outer, child)) : outer.toList.length < name.toList.length := by
  rw [(splitName?_eq_some_iff.mp h).1]
  simp

/-! ## Histories without a wrong step -/

/-- The event does not stand against what happened before it. -/
def ModuleEvent.MayFollow (direct : String → Prop) (past : List ModuleEvent) :
    ModuleEvent → Prop
  | .begun name => name ∉ runningAfter past
  | .kept name _ => ¬ direct name →
    moduleAfter name past = none ∧
      ∀ outer child, splitName? name = some (outer, child) → (moduleAfter outer past).isSome
  | .ended name true => ¬ direct name → ∃ module before, past = .kept name module :: before
  | .ended name false => ¬ direct name → moduleAfter name past = none

/-- No event of the history stands against what happened before it. -/
def LegalHistory (direct : String → Prop) : List ModuleEvent → Prop
  | [] => True
  | event :: past => event.MayFollow direct past ∧ LegalHistory direct past

namespace LegalHistory

variable {direct : String → Prop} {past history : List ModuleEvent} {name : String}

theorem suffix (h : LegalHistory direct history) (hs : past <:+ history) :
    LegalHistory direct past := by
  induction history with
  | nil =>
    rw [List.suffix_nil.mp hs]
    trivial
  | cons event history ih =>
    rcases List.suffix_cons_iff.mp hs with rfl | hs
    · exact h
    · exact ih h.2 hs

/-- Names never stop to lead to a module. -/
theorem isSome_moduleAfter (hs : past <:+ history) (h : (moduleAfter name past).isSome) :
    (moduleAfter name history).isSome := by
  induction history with
  | nil =>
    rw [List.suffix_nil.mp hs] at h
    exact h
  | cons event history ih =>
    rcases List.suffix_cons_iff.mp hs with rfl | hs
    · exact h
    · have hbefore := ih hs
      cases event with
      | begun other => exact hbefore
      | ended other completed => exact hbefore
      | kept other module =>
        rw [moduleAfter]
        split
        · rfl
        · exact hbefore

theorem settled (h : LegalHistory direct history) (hs : past <:+ history) (hname : ¬ direct name)
    {module : LoadedModule} (hpast : moduleAfter name past = some module) :
    moduleAfter name history = some module := by
  induction history with
  | nil =>
    rw [List.suffix_nil.mp hs] at hpast
    exact hpast
  | cons event history ih =>
    rcases List.suffix_cons_iff.mp hs with rfl | hs
    · exact hpast
    · have hbefore := ih h.2 hs
      cases event with
      | begun other => exact hbefore
      | ended other completed => exact hbefore
      | kept other found =>
        -- A name that leads to a module already is not kept again.
        have hne : other ≠ name := by
          rintro rfl
          rw [(h.1 hname).1] at hbefore
          cases hbefore
        rw [moduleAfter, if_neg hne]
        exact hbefore

/-- The package right around a loaded module is loaded. -/
theorem outer (h : LegalHistory direct history) (hname : ¬ direct name) {outer child : String}
    (hsplit : splitName? name = some (outer, child)) (hloaded : (moduleAfter name history).isSome) :
    (moduleAfter outer history).isSome := by
  induction history with
  | nil => exact hloaded
  | cons event history ih =>
    have hlater : history <:+ event :: history := List.suffix_cons event history
    cases event with
    | begun other => exact ih h.2 hloaded
    | ended other completed => exact ih h.2 hloaded
    | kept other module =>
      by_cases hother : other = name
      · subst hother
        exact isSome_moduleAfter hlater ((h.1 hname).2 outer child hsplit)
      · rw [moduleAfter, if_neg hother] at hloaded
        exact isSome_moduleAfter hlater (ih h.2 hloaded)

theorem packaged (h : LegalHistory direct history) (outer inner : String)
    (hdirect : ∀ part rest, inner = part ∨ inner = part ++ "." ++ rest →
      ¬ direct (outer ++ "." ++ part))
    (hloaded : (moduleAfter (outer ++ "." ++ inner) history).isSome) :
    (moduleAfter outer history).isSome := by
  induction hn : inner.toList.length using Nat.strongRecOn generalizing inner with
  | _ n ih =>
    have hname : ¬ direct (outer ++ "." ++ inner) := hdirect inner "" (.inl rfl)
    cases hsplit : splitName? inner with
    | none => exact h.outer hname (splitName?_eq_some_iff.mpr ⟨rfl, splitName?_eq_none hsplit⟩) hloaded
    | some parts =>
      -- The last part of `inner` is left off.
      obtain ⟨before, last⟩ := parts
      obtain ⟨rfl, hlast⟩ := splitName?_eq_some_iff.mp hsplit
      have hname' : splitName? (outer ++ "." ++ (before ++ "." ++ last)) =
          some (outer ++ "." ++ before, last) :=
        splitName?_eq_some_iff.mpr ⟨by simp only [String.append_assoc], hlast⟩
      have hbefore : (moduleAfter (outer ++ "." ++ before) history).isSome :=
        h.outer hname hname' hloaded
      refine ih before.toList.length ?_ before ?_ hbefore rfl
      · rw [← hn]
        simp
      · rintro part rest (rfl | rfl)
        · exact hdirect before last (.inr rfl)
        · exact hdirect part (rest ++ "." ++ last) (.inr (by simp only [String.append_assoc]))

/-- The file of a module that is not loaded never came to its end. -/
theorem count_ended_eq_zero (h : LegalHistory direct history) (hname : ¬ direct name)
    (hmissing : moduleAfter name history = none) : history.count (.ended name true) = 0 := by
  induction history with
  | nil => rfl
  | cons event past ih =>
    have hne : event ≠ .ended name true := by
      rintro rfl
      obtain ⟨module, before, rfl⟩ := h.1 hname
      simp [moduleAfter] at hmissing
    rw [List.count_cons_of_ne hne]
    apply ih h.2
    cases event with
    | begun other => exact hmissing
    | ended other completed => exact hmissing
    | kept other module =>
      rw [moduleAfter] at hmissing
      split at hmissing
      · cases hmissing
      · exact hmissing

theorem count_ended_le_one (h : LegalHistory direct history) (hname : ¬ direct name) :
    history.count (.ended name true) ≤ 1 := by
  induction history with
  | nil => exact Nat.zero_le 1
  | cons event past ih =>
    by_cases hended : event = .ended name true
    · -- Right before its end the module was kept, so it had not come to its end before.
      subst hended
      obtain ⟨module, before, rfl⟩ := h.1 hname
      have hbefore := count_ended_eq_zero h.2.2 hname (h.2.1 hname).1
      rw [List.count_cons_self, List.count_cons_of_ne (by simp), hbefore]
    · rw [List.count_cons_of_ne hended]
      exact ih h.2

theorem nodup_runningAfter (h : LegalHistory direct history) : (runningAfter history).Nodup := by
  induction history with
  | nil => exact List.nodup_nil
  | cons event past ih =>
    have hpast := ih h.2
    cases event with
    | begun name =>
      rw [runningAfter, List.nodup_append]
      refine ⟨hpast, List.nodup_singleton name, ?_⟩
      intro other hother last hlast heq
      rw [List.mem_singleton.mp hlast] at heq
      exact h.1 (heq ▸ hother)
    | kept name module => exact hpast
    | ended name completed =>
      rw [runningAfter, List.nodup_reverse]
      exact (List.nodup_reverse.mpr hpast).erase name

/-- A history without a wrong step is safe. -/
theorem safe (h : LegalHistory direct history) : SafeHistory direct history where
  packaged _ outer inner hs := (h.suffix hs).packaged outer inner
  settled _ _ _ _ hs hlater hname := (h.suffix hlater).settled hs hname
  once _ hname := h.count_ended_le_one hname
  cleared _ _ hs hname := (h.suffix hs).1 hname
  nested _ hs := (h.suffix hs).nodup_runningAfter

end LegalHistory

namespace ModuleCache.Faithful

variable {c : ModuleCache}

theorem ofPaths (paths : List String) : (ModuleCache.ofPaths paths).Faithful := by
  have hfold (c : ModuleCache) (hc : c.Faithful) : (paths.foldl addPath c).Faithful := by
    induction paths generalizing c with
    | nil => exact hc
    | cons path paths ih =>
      apply ih
      unfold addPath
      split
      · exact hc
      · exact ⟨hc.loaded, hc.running⟩
  exact hfold {} ⟨fun _ => rfl, rfl⟩

theorem insert (hc : c.Faithful) (name : String) (module : LoadedModule) :
    (c.insert name module).Faithful where
  loaded other := by
    rw [get?_insert, hc.loaded]
    by_cases hother : other = name
    · rw [if_pos hother]
      exact (if_pos hother.symm).symm
    · rw [if_neg hother]
      exact (if_neg fun heq => hother heq.symm).symm
  running := hc.running

theorem beginLoading (hc : c.Faithful) {c' : ModuleCache} {name : String}
    (h : c.beginLoading name = .ok c') : c'.Faithful := by
  unfold ModuleCache.beginLoading at h
  split at h
  · cases h
  · cases h
    exact ⟨hc.loaded, congrArg (· ++ [name]) hc.running⟩

theorem endLoading (hc : c.Faithful) (name : String) (completed : Bool) :
    (c.endLoading name completed).Faithful :=
  ⟨hc.loaded, congrArg (fun names => (names.reverse.erase name).reverse) hc.running⟩

end ModuleCache.Faithful

end StagedScript
