import StagedScript.Proofs.Machine.Regime.Program
import StagedScript.Proofs.Module.History

/-!
# Loading modules

Whatever a program imports, and whatever the imported files do, no event of the
module cache stands against the events before it.  The reason is that a module
cannot be loaded while its file or that of a package around it runs: to load it
all packages around it are loaded first, and the running one would have to be
loaded inside of itself.
-/

namespace StagedScript

open Run Evaluation
open Syntax (Block SyntaxFault)

variable {direct : String → Prop} {m m' m'' : Machine} {s : Services} {name : String}

/-- The module is not loaded, nor are the packages around it up to `top`. -/
inductive ModuleCache.Missing (c : ModuleCache) (top : String) : String → Prop
  | top : c.get? top = none → Missing c top top
  | inside {outer name child : String} : Missing c top outer →
    splitName? name = some (outer, child) → c.get? name = none → Missing c top name

namespace ModuleCache.Missing

variable {c c' : ModuleCache} {top outer child : String}

theorem get?_eq (h : c.Missing top name) : c.get? name = none := by
  cases h with
  | top h => exact h
  | inside _ _ h => exact h

/-- If all of them stay missing, they are missing up to the same package. -/
theorem mono (hstay : ∀ n, c.Missing top n → c'.get? n = none) (h : c.Missing top name) :
    c'.Missing top name := by
  induction h with
  | top h => exact .top (hstay _ (.top h))
  | inside houter hsplit hname ih => exact .inside ih hsplit (hstay _ (.inside houter hsplit hname))

/-- What is missing up to a package is missing up to the package around it. -/
theorem widen (h : c.Missing top name) (hsplit : splitName? top = some (outer, child))
    (houter : c.get? outer = none) : c.Missing outer name := by
  induction h with
  | top h => exact .inside (.top houter) hsplit h
  | inside _ hsplit' hname ih => exact .inside ih hsplit' hname

theorem length_le (h : c.Missing top name) : top.toList.length ≤ name.toList.length := by
  induction h with
  | top _ => exact Nat.le_refl _
  | inside _ hsplit _ ih => exact Nat.le_trans ih (Nat.le_of_lt (length_lt_of_splitName? hsplit))

/-- The outermost of the missing packages is missing itself. -/
theorem eq_top_or_outer (h : c.Missing top name) :
    name = top ∨ ∃ outer child, splitName? name = some (outer, child) ∧ c.get? outer = none := by
  cases h with
  | top _ => exact .inl rfl
  | inside houter hsplit _ => exact .inr ⟨_, _, hsplit, houter.get?_eq⟩

end ModuleCache.Missing

/-! ## Tidy machines -/

def Machine.HasFile (m : Machine) (name : String) : Prop :=
  Builtin.module? name = none ∧
    ∃ source, m.modules.find? m.files name = some source ∧ ∀ path, source ≠ .bare path

/-- The module cache holds what its history leaves behind, no event of which stands against the
events before it, and only modules with files are running. -/
structure Machine.Tidy (direct : String → Prop) (m : Machine) : Prop where
  faithful : m.modules.Faithful
  legal : LegalHistory direct m.modules.history
  filed : ∀ name ∈ m.modules.loading, m.HasFile name

/-- A run leads from a tidy machine to a tidy one, no module is lost, and whatever was missing in a
running module is still missing. -/
structure Machine.Onward (direct : String → Prop) (m m' : Machine) : Prop where
  tidy : m.Tidy direct → m'.Tidy direct
  files : m'.files = m.files
  paths : m'.modules.searchPaths = m.modules.searchPaths
  loading : m'.modules.loading = m.modules.loading
  retained : ∀ name, (m.modules.get? name).isSome → (m'.modules.get? name).isSome
  missing : ∀ top ∈ m.modules.loading, ∀ name, m.modules.Missing top name →
    m'.modules.get? name = none

theorem Machine.HasFile.of_eq (h : m.HasFile name) (hfiles : m'.files = m.files)
    (hpaths : m'.modules.searchPaths = m.modules.searchPaths) : m'.HasFile name := by
  obtain ⟨hbuiltin, source, hfind, hbare⟩ := h
  refine ⟨hbuiltin, source, ?_, hbare⟩
  unfold ModuleCache.find? at hfind ⊢
  rw [hfiles, hpaths]
  exact hfind

namespace Machine.Onward

/-- The modules have not changed. -/
theorem of_eq (hmodules : m'.modules = m.modules) (hfiles : m'.files = m.files) :
    m.Onward direct m' where
  tidy hm := by
    refine ⟨hmodules ▸ hm.faithful, hmodules ▸ hm.legal, fun name hname => ?_⟩
    exact (hm.filed name (hmodules ▸ hname)).of_eq hfiles (by rw [hmodules])
  files := hfiles
  paths := by rw [hmodules]
  loading := by rw [hmodules]
  retained name h := hmodules ▸ h
  missing _ _ _ h := by
    rw [hmodules]
    exact h.get?_eq

theorem refl (m : Machine) : m.Onward direct m :=
  of_eq rfl rfl

theorem trans (first : m.Onward direct m') (second : m'.Onward direct m'') :
    m.Onward direct m'' where
  tidy hm := second.tidy (first.tidy hm)
  files := second.files.trans first.files
  paths := second.paths.trans first.paths
  loading := second.loading.trans first.loading
  retained name h := second.retained name (first.retained name h)
  missing top htop name h :=
    second.missing top (first.loading ▸ htop) name (h.mono (first.missing top htop))

end Machine.Onward

namespace Machine.Onward

theorem enterCall (m : Machine) : m.Onward direct m.enterCall :=
  of_eq rfl rfl

theorem leaveCall (m : Machine) : m.Onward direct m.leaveCall :=
  of_eq rfl rfl

end Machine.Onward

/-- The regime under which the history of the modules stays without a wrong step. -/
def tidiness (direct : String → Prop) : Regime where
  holds := Machine.Tidy direct
  leads := Machine.Onward direct
  admits _ := True

instance : (tidiness direct).Steady where
  refl := .refl
  trans := .trans
  holds_of_leads hm h := h.tidy hm
  contents _ _ _ := .of_eq rfl rfl
  printed _ _ := .of_eq rfl rfl
  defined _ _ _ := .of_eq rfl rfl
  registered _ _ := .of_eq rfl rfl
  entered {m} hm _ := (Machine.Onward.enterCall m).tidy hm
  left {m m'} _ _ h := (Machine.Onward.enterCall m).trans (h.trans (.leaveCall m'))
  body _ _ _ _ := trivial

/-- The packages around a module are loaded. -/
def ModuleCache.Packaged (c : ModuleCache) (name : String) : Prop :=
  ∀ outer child, splitName? name = some (outer, child) → (c.get? outer).isSome

/-- A module whose packages are loaded and that is not running is not missing in a running
module. -/
theorem ModuleCache.Missing.ne_of_packaged {c : ModuleCache} {top other : String}
    (h : c.Missing top other) (hpackaged : c.Packaged name) (hne : name ≠ top) :
    other ≠ name := by
  rintro rfl
  rcases h.eq_top_or_outer with rfl | ⟨outer, child, hsplit, houter⟩
  · exact hne rfl
  · have hsome := hpackaged outer child hsplit
    rw [houter] at hsome
    cases hsome

/-- The machine with one more module. -/
def Machine.keep (m : Machine) (name : String) (loaded : LoadedModule) : Machine :=
  { m with modules := m.modules.insert name loaded }

theorem Machine.get?_keep (m : Machine) (name other : String) (loaded : LoadedModule) :
    (m.keep name loaded).modules.get? other =
      if other = name then some loaded else m.modules.get? other :=
  ModuleCache.get?_insert m.modules name other loaded

theorem Machine.isSome_get?_keep {other : String} (loaded : LoadedModule)
    (h : (m.modules.get? other).isSome) : ((m.keep name loaded).modules.get? other).isSome := by
  rw [Machine.get?_keep]
  split
  · rfl
  · exact h

theorem Machine.Tidy.keep (hm : m.Tidy direct) {loaded : LoadedModule}
    (h : ¬ direct name → m.modules.get? name = none ∧ m.modules.Packaged name) :
    (m.keep name loaded).Tidy direct where
  faithful := hm.faithful.insert name loaded
  legal := by
    refine ⟨fun hname => ?_, hm.legal⟩
    obtain ⟨hmissing, hpackaged⟩ := h hname
    refine ⟨hm.faithful.loaded name ▸ hmissing, fun outer child hsplit => ?_⟩
    rw [← hm.faithful.loaded outer]
    exact hpackaged outer child hsplit
  filed other hother := (hm.filed other hother).of_eq rfl rfl

/-- Keeping a module that is missing, not running and whose packages are loaded. -/
theorem Machine.Onward.keep {loaded : LoadedModule} (hmissing : m.modules.get? name = none)
    (hpackaged : m.modules.Packaged name) (hidle : name ∉ m.modules.loading) :
    m.Onward direct (m.keep name loaded) where
  tidy hm := hm.keep fun _ => ⟨hmissing, hpackaged⟩
  files := rfl
  paths := rfl
  loading := rfl
  retained _ h := Machine.isSome_get?_keep loaded h
  missing top htop other h := by
    have hne := h.ne_of_packaged hpackaged fun heq => hidle (heq ▸ htop)
    rw [Machine.get?_keep, if_neg hne]
    exact h.get?_eq

/-- What a run that loaded a module has brought: the module is there; if it was there before then
nothing else has happened, and otherwise what was missing inside of it is still missing. -/
structure Machine.Loads (name : String) (m m' : Machine) : Prop where
  found : (m'.modules.get? name).isSome
  same : (m.modules.get? name).isSome → m' = m
  inside : ∀ inner, m.modules.Missing name inner → inner ≠ name → m'.modules.get? inner = none

/-- What holds of the result and the machine if an action has a result, and of the machine
otherwise. -/
def Ends {α : Type} (x : Run α) (m : Machine) (P : α → Machine → Prop) (E : Machine → Prop) : Prop :=
  match x m with
  | .ok a m' => P a m'
  | .error _ m' => E m'

theorem ends_bind {α β : Type} {x : Run α} {f : α → Run β} {P : α → Machine → Prop}
    {Q : β → Machine → Prop} {E : Machine → Prop} (hx : Ends x m P E)
    (hf : ∀ a m', P a m' → Ends (f a) m' Q E) : Ends (x >>= f) m Q E := by
  unfold Ends at hx
  change match (EStateM.bind x f) m with
    | .ok b m' => Q b m'
    | .error _ m' => E m'
  unfold EStateM.bind
  cases hrun : x m with
  | ok a m' =>
    rw [hrun] at hx
    exact hf a m' hx
  | error e m' =>
    rw [hrun] at hx
    exact hx

theorem Ends.imp {α : Type} {x : Run α} {P Q : α → Machine → Prop} {E F : Machine → Prop}
    (h : Ends x m P E) (hok : ∀ a m', P a m' → Q a m') (herror : ∀ m', E m' → F m') :
    Ends x m Q F := by
  unfold Ends at h ⊢
  cases hrun : x m with
  | ok a m' =>
    rw [hrun] at h
    exact hok a m' h
  | error e m' =>
    rw [hrun] at h
    exact herror m' h

theorem ends_get {α : Type} {f : Machine → Run α} {P : α → Machine → Prop} {E : Machine → Prop}
    (h : Ends (f m) m P E) : Ends (get >>= f) m P E :=
  h

theorem Respects.ends {α : Type} {x : Run α} (hx : Respects (tidiness direct) x)
    (hm : m.Tidy direct) : Ends x m (fun _ m' => m.Onward direct m') (m.Onward direct) :=
  hx m hm

/-- The run of an action that loads a module leads on, and if it succeeds the module is loaded. -/
def LoadsFrom (direct : String → Prop) (name : String) (m : Machine) (x : Run LoadedModule) :
    Prop :=
  Ends x m (fun _ m' => m.Onward direct m' ∧ m.Loads name m') (m.Onward direct)

/-- Calls lead on, and imports load modules. -/
structure Evaluation.Services.LoadTidily (s : Services) (direct : String → Prop) : Prop where
  call : ∀ callee args, Respects (tidiness direct) (s.call callee args)
  load : ∀ name m, m.Tidy direct → LoadsFrom direct name m (s.load name)

theorem Evaluation.Services.LoadTidily.respect (hs : s.LoadTidily direct) :
    s.Respect (tidiness direct) where
  call := hs.call
  load name m hm := (hs.load name m hm).imp (fun _ _ h => h.1) fun _ h => h

/-! ## Running the file of a module -/

theorem execBody_ends (hs : s.Respect (tidiness direct)) (hm : m.Tidy direct) (spec : ModuleSpec)
    (body : Block) :
    Ends (execBody s spec body) m
      (fun loaded m' => ∃ m₂, m.Onward direct m₂ ∧ m' = m₂.keep spec.name loaded)
      (m.Onward direct) := by
  unfold execBody
  refine ends_bind ((respects_addFrame _).ends hm) fun globals m₁ hframe => ?_
  have hblock := (respects_execBlock hs [globals] body fun _ _ => trivial).ends (hframe.tidy hm)
  refine ends_bind (hblock.imp (fun _ _ h => hframe.trans h) fun _ h => hframe.trans h) ?_
  intro flow m₂ hm₂
  exact ⟨m₂, hm₂, rfl⟩

theorem execSource_ends (hs : s.Respect (tidiness direct)) (hm : m.Tidy direct) (spec : ModuleSpec)
    (source : String) :
    Ends (execSource s spec source) m
      (fun result m' =>
        match result with
        | .ok loaded => ∃ m₂, m.Onward direct m₂ ∧ m' = m₂.keep spec.name loaded
        | .error _ => m.Onward direct m')
      (m.Onward direct) := by
  unfold execSource
  cases Syntax.readModule source with
  | error f => exact Machine.Onward.refl m
  | ok body => exact ends_bind (execBody_ends hs hm spec body) fun loaded m' h => h

/-- The machine in which the file of a module begins to run. -/
def Machine.start (m : Machine) (name : String) : Machine :=
  { m with modules :=
    { m.modules with
      loading := m.modules.loading ++ [name]
      history := .begun name :: m.modules.history } }

theorem ModuleCache.beginLoading_eq {modules : ModuleCache}
    (h : m.modules.beginLoading name = .ok modules) :
    name ∉ m.modules.loading ∧ modules = (m.start name).modules := by
  unfold ModuleCache.beginLoading at h
  split at h
  · cases h
  · next hidle => exact ⟨by simpa using hidle, (Except.ok.inj h).symm⟩

theorem Machine.Tidy.start (hm : m.Tidy direct) (hfile : m.HasFile name)
    (hidle : name ∉ m.modules.loading) : (m.start name).Tidy direct where
  faithful := ⟨hm.faithful.loaded, congrArg (· ++ [name]) hm.faithful.running⟩
  legal := ⟨fun h => hidle (hm.faithful.running ▸ h), hm.legal⟩
  filed other hother := by
    rcases List.mem_append.mp hother with hother | hother
    · exact (hm.filed other hother).of_eq rfl rfl
    · rw [List.mem_singleton.mp hother]
      exact hfile.of_eq rfl rfl

theorem whileLoading_start (m : Machine) (name : String)
    (x : Run (Except SyntaxFault LoadedModule)) :
    whileLoading (m.start name).modules name x m =
      match x (m.start name) with
      | .ok result m' => .ok result { m' with modules := m'.modules.endLoading name result.isOk }
      | .error e m' => .error e { m' with modules := m'.modules.endLoading name false } :=
  rfl

namespace Machine.Onward

/-- While the file of a module runs, what is missing inside of that module stays missing. -/
theorem get?_of_start {m₂ : Machine} {top other : String}
    (hrun : (m.start name).Onward direct m₂) (htop : top ∈ m.modules.loading ∨ top = name)
    (h : m.modules.Missing top other) : m₂.modules.get? other = none :=
  hrun.missing top (List.mem_append.mpr (htop.imp_right List.mem_singleton.mpr)) other
    (ModuleCache.Missing.mono (c := m.modules) (fun _ hn => hn.get?_eq) h)

/-- The run of a file ends. -/
theorem endLoading {m₂ : Machine} {completed : Bool}
    (htidy : m.Tidy direct → m₂.Tidy direct ∧
      (ModuleEvent.ended name completed).MayFollow direct m₂.modules.history)
    (hfiles : m₂.files = m.files) (hpaths : m₂.modules.searchPaths = m.modules.searchPaths)
    (hloading : m₂.modules.loading = m.modules.loading ++ [name])
    (hretained : ∀ other, (m.modules.get? other).isSome → (m₂.modules.get? other).isSome)
    (hmissing : ∀ top ∈ m.modules.loading, ∀ other, m.modules.Missing top other →
      m₂.modules.get? other = none) :
    m.Onward direct { m₂ with modules := m₂.modules.endLoading name completed } := by
  have hrestored : (m₂.modules.endLoading name completed).loading = m.modules.loading := by
    change (m₂.modules.loading.reverse.erase name).reverse = m.modules.loading
    rw [hloading]
    simp
  refine ⟨fun hm => ?_, hfiles, hpaths, hrestored, hretained, hmissing⟩
  obtain ⟨hinner, hevent⟩ := htidy hm
  refine ⟨hinner.faithful.endLoading name completed, ⟨hevent, hinner.legal⟩, fun other hother => ?_⟩
  exact (hm.filed other (hrestored ▸ hother)).of_eq hfiles hpaths

variable (hfile : m.HasFile name) (hidle : name ∉ m.modules.loading)
  (hname : m.modules.get? name = none)

include hfile hidle hname

/-- A file that does not come to its end leaves its module missing. -/
theorem failed {m₂ : Machine} (hrun : (m.start name).Onward direct m₂) :
    m.Onward direct { m₂ with modules := m₂.modules.endLoading name false } := by
  have hmissing := hrun.get?_of_start (.inr rfl) (.top hname)
  refine .endLoading (fun hm => ?_) hrun.files hrun.paths hrun.loading hrun.retained ?_
  · have htidy := hrun.tidy (hm.start hfile hidle)
    exact ⟨htidy, fun _ => htidy.faithful.loaded name ▸ hmissing⟩
  · exact fun top htop other h => hrun.get?_of_start (.inl htop) h

/-- A file that comes to its end has just been kept. -/
theorem completed {m₂ : Machine} (hpackaged : m.modules.Packaged name)
    (hrun : (m.start name).Onward direct m₂) (loaded : LoadedModule) :
    m.Onward direct { m₂ with
      modules := (m₂.keep name loaded).modules.endLoading name true } := by
  have hmissing := hrun.get?_of_start (.inr rfl) (.top hname)
  have hkept : (m₂.keep name loaded).modules.loading = m.modules.loading ++ [name] := hrun.loading
  have hfiles : (m₂.keep name loaded).files = m.files := hrun.files
  refine Machine.Onward.endLoading (fun hm => ⟨?_, ?_⟩) hfiles hrun.paths hkept ?_ ?_
  · refine (hrun.tidy (hm.start hfile hidle)).keep fun _ => ⟨hmissing, ?_⟩
    exact fun outer child hsplit => hrun.retained outer (hpackaged outer child hsplit)
  · exact fun _ => ⟨loaded, m₂.modules.history, rfl⟩
  · exact fun other h => Machine.isSome_get?_keep loaded (hrun.retained other h)
  · intro top htop other h
    rw [Machine.get?_keep, if_neg (h.ne_of_packaged hpackaged fun heq => hidle (heq ▸ htop))]
    exact hrun.get?_of_start (.inl htop) h

end Machine.Onward

theorem Machine.Loads.completed {m₂ : Machine} (hname : m.modules.get? name = none)
    (hrun : (m.start name).Onward direct m₂) (loaded : LoadedModule) :
    m.Loads name { m₂ with
      modules := (m₂.keep name loaded).modules.endLoading name true } := by
  have hkept (other : String) := Machine.get?_keep m₂ name other loaded
  refine ⟨?_, fun h => ?_, fun inner hinner hne => ?_⟩
  · exact Option.isSome_iff_exists.mpr ⟨loaded, (hkept name).trans (if_pos rfl)⟩
  · rw [hname] at h
    cases h
  · exact (hkept inner).trans ((if_neg hne).trans (hrun.get?_of_start (.inr rfl) hinner))

section Files

variable (hs : s.Respect (tidiness direct)) (hm : m.Tidy direct)

include hs hm

/-- The run of the file of a missing module. -/
theorem whileLoading_ends {spec : ModuleSpec} (hfile : m.HasFile spec.name)
    (hidle : spec.name ∉ m.modules.loading) (hname : m.modules.get? spec.name = none)
    (hpackaged : m.modules.Packaged spec.name) (source : String) :
    Ends (whileLoading (m.start spec.name).modules spec.name (execSource s spec source)) m
      (fun result m' => m.Onward direct m' ∧ (result.isOk → m.Loads spec.name m'))
      (m.Onward direct) := by
  have hexec := execSource_ends hs (hm.start hfile hidle) spec source
  unfold Ends at hexec ⊢
  rw [whileLoading_start]
  cases hrun : execSource s spec source (m.start spec.name) with
  | error e m₂ =>
    rw [hrun] at hexec
    exact hexec.failed hfile hidle hname
  | ok result m₂ =>
    rw [hrun] at hexec
    cases result with
    | error f => exact ⟨hexec.failed hfile hidle hname, fun h => nomatch h⟩
    | ok loaded =>
      obtain ⟨m₃, hm₃, rfl⟩ := hexec
      exact ⟨hm₃.completed hfile hidle hname hpackaged loaded, fun _ => .completed hname hm₃ loaded⟩

theorem loadFile_ends (spec : ModuleSpec) (hfile : m.HasFile spec.name)
    (hname : m.modules.get? spec.name = none) (hpackaged : m.modules.Packaged spec.name)
    (path : String) : LoadsFrom direct spec.name m (loadFile s path spec) := by
  have hbegin : Ends (ofExcept (m.modules.beginLoading spec.name)) m
      (fun modules m' => m' = m ∧ m.modules.beginLoading spec.name = .ok modules)
      (m.Onward direct) := by
    cases m.modules.beginLoading spec.name with
    | error f => exact .refl m
    | ok modules => exact ⟨rfl, rfl⟩
  unfold loadFile LoadsFrom
  refine ends_get ?_
  split
  · exact Machine.Onward.refl m
  · next source hread =>
    refine ends_get ?_
    refine ends_bind hbegin ?_
    rintro modules _ ⟨rfl, hbegin⟩
    obtain ⟨hidle, rfl⟩ := ModuleCache.beginLoading_eq hbegin
    refine ends_bind (whileLoading_ends hs hm hfile hidle hname hpackaged source) ?_
    rintro result m' ⟨honward, hloads⟩
    cases result with
    | error f => exact honward
    | ok loaded => exact ⟨honward, hloads rfl⟩

end Files

/-! ## Loading by name -/

theorem addModule_ends (hname : m.modules.get? name = none) (hpackaged : m.modules.Packaged name)
    (hidle : name ∉ m.modules.loading) (globals : Bindings) :
    LoadsFrom direct name m (addModule name globals) := by
  unfold addModule
  refine ends_bind (P := fun _ m₁ => ∃ heap, m₁ = { m with heap := heap }) ⟨_, rfl⟩ ?_
  rintro globals _ ⟨heap, rfl⟩
  let loaded : LoadedModule := ⟨name, globals⟩
  have hheap : m.Onward direct { m with heap := heap } := .of_eq rfl rfl
  have hkept (other : String) := Machine.get?_keep { m with heap := heap } name other loaded
  refine ⟨hheap.trans (.keep (m := { m with heap := heap }) hname hpackaged hidle), ?_, ?_, ?_⟩
  · exact Option.isSome_iff_exists.mpr ⟨loaded, (hkept name).trans (if_pos rfl)⟩
  · intro h
    rw [hname] at h
    cases h
  · exact fun inner hinner hne => (hkept inner).trans ((if_neg hne).trans hinner.get?_eq)

/-- When the package around a missing module has been loaded, the module and what lies inside of it
are still missing. -/
theorem Machine.Loads.get?_of_split {outer child inner : String} (h : m.Loads outer m')
    (hsplit : splitName? name = some (outer, child)) (hinner : m.modules.Missing name inner) :
    m'.modules.get? inner = none := by
  cases houter : m.modules.get? outer with
  | some loaded =>
    rw [h.same (Option.isSome_iff_exists.mpr ⟨loaded, houter⟩)]
    exact hinner.get?_eq
  | none =>
    have hlength := length_lt_of_splitName? hsplit
    have hne : inner ≠ outer := by
      rintro rfl
      exact absurd hinner.length_le (Nat.not_le_of_lt hlength)
    exact h.inside inner (hinner.widen hsplit houter) hne

/-- The package is loaded before the module that it holds. -/
theorem Machine.Loads.trans {outer child : String} (first : m.Loads outer m')
    (hsplit : splitName? name = some (outer, child)) (hname : m.modules.get? name = none)
    (second : m'.Loads name m'') : m.Loads name m'' where
  found := second.found
  same h := by
    rw [hname] at h
    cases h
  inside inner hinner hne :=
    second.inside inner (hinner.mono fun _ h => first.get?_of_split hsplit h) hne

/-- Once a missing module is loaded, nothing that leaves the modules alone changes that. -/
theorem LoadsFrom.bind {x : Run LoadedModule} {k : LoadedModule → Run LoadedModule}
    (hname : m.modules.get? name = none) (hx : LoadsFrom direct name m x)
    (hk : ∀ loaded m', Ends (k loaded) m'
      (fun _ m'' => m''.modules = m'.modules ∧ m''.files = m'.files) fun _ => False) :
    LoadsFrom direct name m (x >>= k) := by
  refine ends_bind hx fun loaded m₁ h => (hk loaded m₁).imp ?_ fun _ hfalse => hfalse.elim
  rintro _ m₂ ⟨hmodules, hfiles⟩
  refine ⟨h.1.trans (.of_eq hmodules hfiles), hmodules ▸ h.2.found, fun hsome => ?_, ?_⟩
  · rw [hname] at hsome
    cases hsome
  · exact hmodules ▸ h.2.inside

/-- The module is loaded from what its name leads to, when the packages around it are loaded. -/
theorem loadFound_ends (hs : s.Respect (tidiness direct)) (hm : m.Tidy direct)
    (hname : m.modules.get? name = none) (hpackaged : m.modules.Packaged name)
    (hbuiltin : Builtin.module? name = none) (package : Option String)
    {k : LoadedModule → Run LoadedModule}
    (hk : ∀ loaded m', Ends (k loaded) m'
      (fun _ m'' => m''.modules = m'.modules ∧ m''.files = m'.files) fun _ => False) :
    LoadsFrom direct name m
      (match m.modules.find? m.files name with
        | none => fault (.noModule name) >>= k
        | some (.bare _) => addModule name [] >>= k
        | some (.package path) => loadFile s path ⟨name, some name, some path⟩ >>= k
        | some (.file path) => loadFile s path ⟨name, package, some path⟩ >>= k) := by
  have hfile {source : ModuleSource} (h : m.modules.find? m.files name = some source)
      (hbare : ∀ path, source ≠ .bare path) : m.HasFile name :=
    ⟨hbuiltin, source, h, hbare⟩
  split
  · exact Machine.Onward.refl m
  · next path h =>
    refine (addModule_ends hname hpackaged (fun hmem => ?_) []).bind hname hk
    obtain ⟨-, source, hsource, hbare⟩ := hm.filed name hmem
    exact hbare path (Option.some.inj (hsource.symm.trans h))
  · next path h =>
    have hpresent : m.HasFile name := hfile h fun _ => ModuleSource.noConfusion
    have hload := loadFile_ends hs hm ⟨name, some name, some path⟩ hpresent hname hpackaged path
    exact hload.bind hname hk
  · next path h =>
    have hpresent : m.HasFile name := hfile h fun _ => ModuleSource.noConfusion
    have hload := loadFile_ends hs hm ⟨name, package, some path⟩ hpresent hname hpackaged path
    exact hload.bind hname hk

theorem findAndLoad_ends (hs : s.LoadTidily direct) (hm : m.Tidy direct)
    (hname : m.modules.get? name = none) (hbuiltin : Builtin.module? name = none) :
    LoadsFrom direct name m (findAndLoad s name) := by
  unfold findAndLoad
  cases hsplit : splitName? name with
  | none =>
    have hpackaged : m.modules.Packaged name := fun outer child h => by
      rw [hsplit] at h
      cases h
    refine ends_get (loadFound_ends hs.respect hm hname hpackaged hbuiltin none ?_)
    exact fun _ _ => ⟨rfl, rfl⟩
  | some parts =>
    obtain ⟨package, child⟩ := parts
    refine ends_bind (hs.load package m hm) fun outer m₁ h => ends_get ?_
    have hname₁ := h.2.get?_of_split hsplit (.top hname)
    have hpackaged : m₁.modules.Packaged name := fun outer' child' h' => by
      rw [hsplit] at h'
      obtain ⟨rfl, -⟩ := Prod.mk.inj (Option.some.inj h')
      exact h.2.found
    refine (loadFound_ends hs.respect (h.1.tidy hm) hname₁ hpackaged hbuiltin (some package) ?_).imp
      (fun _ _ h' => ⟨h.1.trans h'.1, h.2.trans hsplit hname h'.2⟩) fun _ h' => h.1.trans h'
    intro loaded m'
    refine ends_get ?_
    split
    · exact ⟨rfl, rfl⟩
    · exact ⟨rfl, rfl⟩

theorem Builtin.splitName?_of_module? {globals : Bindings}
    (h : Builtin.module? name = some globals) : splitName? name = none := by
  unfold Builtin.module? at h
  split at h
  · decide
  · decide
  · decide
  · cases h

theorem loadModule_ends (hs : s.LoadTidily direct) (hm : m.Tidy direct) (name : String) :
    LoadsFrom direct name m (loadModule s name) := by
  unfold loadModule
  refine ends_get ?_
  split
  · next loaded hloaded =>
    refine ⟨.refl m, ?_, fun _ => rfl, fun inner hinner _ => hinner.get?_eq⟩
    exact Option.isSome_iff_exists.mpr ⟨loaded, hloaded⟩
  · next hname =>
    split
    · next globals hbuiltin =>
      refine addModule_ends hname ?_ ?_ globals
      · intro outer child hsplit
        rw [Builtin.splitName?_of_module? hbuiltin] at hsplit
        cases hsplit
      · intro hmem
        rw [(hm.filed name hmem).1] at hbuiltin
        cases hbuiltin
    · next hbuiltin => exact findAndLoad_ends hs hm hname hbuiltin

/-- Calls lead on and imports load modules, however deep they nest. -/
theorem services_loadTidily (direct : String → Prop) (rounds n : Nat) :
    (services rounds n).LoadTidily direct := by
  induction n with
  | zero => exact ⟨fun _ _ => respects_throw _, fun _ m _ => .refl m⟩
  | succ n ih =>
    exact ⟨fun callee args => respects_callValue ih.respect callee args,
      fun name m hm => loadModule_ends ih hm name⟩

end StagedScript
