import StagedScript.Evaluation.Program
import StagedScript.Proofs.Syntax.Definitions

/-!
# What single changes allow

Programs change a machine only in a few ways: they change the contents of the
heap, print, define functions, register them, keep modules, and enter and leave
calls and files.  A `Regime` says which changes are allowed, and `Respects` that
an action makes no others, whatever its outcome.
-/

namespace StagedScript

open Run Evaluation Staging Builtin
open Syntax (Alias Block Case Definition Entry Expr FormattedPart FunctionHeader Pattern Stmt)

/-- Which machines there are, from which machine to which one a run may lead, and which
definitions may be executed. -/
structure Regime where
  holds : Machine → Prop
  leads : Machine → Machine → Prop
  admits : Definition → Prop

def Regime.AdmitsAll (r : Regime) (body : Block) : Prop :=
  ∀ d ∈ Syntax.definitionsIn body, r.admits d

/-- A regime that allows every single change but those of the modules. -/
class Regime.Steady (r : Regime) : Prop where
  refl : ∀ m, r.leads m m
  trans : ∀ {m m' m''}, r.leads m m' → r.leads m' m'' → r.leads m m''
  holds_of_leads : ∀ {m m'}, r.holds m → r.leads m m' → r.holds m'
  /-- The contents of the heap may change, but not the functions on it. -/
  contents : ∀ {m} (h : Heap), r.holds m → h.functions = m.heap.functions →
    r.leads m { m with heap := h }
  printed : ∀ {m} (output : Array String), r.holds m → r.leads m { m with output := output }
  defined : ∀ {m} (f : Function), r.holds m → r.admits (f.header, f.body) →
    r.leads m { m with heap := (m.heap.addFunction f).2 }
  registered : ∀ {m} (rs : Registrations), r.holds m → r.leads m { m with registrations := rs }
  /-- A call may be entered below the limit, and left after whatever it may lead to. -/
  entered : ∀ {m}, r.holds m → m.depth < maxDepth → r.holds m.enterCall
  left : ∀ {m m'}, r.holds m → m.depth < maxDepth → r.leads m.enterCall m' →
    r.leads m m'.leaveCall
  /-- A function on the heap may run. -/
  body : ∀ {m code f}, r.holds m → m.heap.function? code = some f → r.AdmitsAll f.body

/-- A regime that allows every single change. -/
class Regime.Lawful (r : Regime) : Prop extends r.Steady where
  kept : ∀ {m} (name : String) (loaded : LoadedModule), r.holds m →
    r.leads m { m with modules := m.modules.insert name loaded }
  begun : ∀ {m modules name}, r.holds m → m.modules.beginLoading name = .ok modules →
    r.holds { m with modules := modules }
  finished : ∀ {m m' modules name} (completed : Bool), r.holds m →
    m.modules.beginLoading name = .ok modules → r.leads { m with modules := modules } m' →
    r.leads m { m' with modules := m'.modules.endLoading name completed }
  /-- A file may be loaded. -/
  file : ∀ {m path source body}, r.holds m → m.files.read path = .ok source →
    Syntax.readModule source = .ok body → r.AdmitsAll body

variable {r : Regime} {m : Machine} {s : Services} {α β : Type}

/-- The run of an action from a machine leads where it may. -/
def RespectsFrom (r : Regime) (m : Machine) (x : Run α) : Prop :=
  match x m with
  | .ok _ m' => r.leads m m'
  | .error _ m' => r.leads m m'

/-- Every run of an action leads where it may. -/
def Respects (r : Regime) (x : Run α) : Prop :=
  ∀ m, r.holds m → RespectsFrom r m x

variable [r.Steady]

@[simp]
theorem respects_pure (a : α) : Respects r (pure a) :=
  fun m _ => Regime.Steady.refl m

@[simp]
theorem respects_throw (i : Interrupt) : Respects r (throw i : Run α) :=
  fun m _ => Regime.Steady.refl m

@[simp]
theorem respects_raise (e : Exception) : Respects r (raise e : Run α) :=
  fun m _ => Regime.Steady.refl m

@[simp]
theorem respects_fault (f : Fault) : Respects r (fault f : Run α) :=
  fun m _ => Regime.Steady.refl m

@[simp]
theorem respects_get : Respects r (get : Run Machine) :=
  fun m _ => Regime.Steady.refl m

@[simp]
theorem respects_getHeap : Respects r getHeap :=
  fun m _ => Regime.Steady.refl m

theorem respectsFrom_bind {x : Run α} {f : α → Run β} (hm : r.holds m)
    (hx : RespectsFrom r m x)
    (hf : ∀ a m', x m = .ok a m' → r.holds m' → RespectsFrom r m' (f a)) :
    RespectsFrom r m (x >>= f) := by
  unfold RespectsFrom at hx
  change match (EStateM.bind x f) m with
    | .ok _ m' => r.leads m m'
    | .error _ m' => r.leads m m'
  unfold EStateM.bind
  cases hrun : x m with
  | error e m' =>
    rw [hrun] at hx
    exact hx
  | ok a m' =>
    rw [hrun] at hx
    have hrest := hf a m' hrun (Regime.Steady.holds_of_leads hm hx)
    unfold RespectsFrom at hrest
    dsimp only
    split at hrest
    · exact Regime.Steady.trans hx hrest
    · exact Regime.Steady.trans hx hrest

@[simp]
theorem respects_bind {x : Run α} {f : α → Run β} (hx : Respects r x)
    (hf : ∀ a, Respects r (f a)) : Respects r (x >>= f) :=
  fun m hm => respectsFrom_bind hm (hx m hm) fun a m' _ hm' => hf a m' hm'

@[simp]
theorem respects_map {x : Run α} (f : α → β) (hx : Respects r x) : Respects r (f <$> x) :=
  respects_bind hx fun _ => respects_pure _

omit [r.Steady] in
@[simp]
theorem respects_ite {c : Prop} [Decidable c] {x y : Run α} (hx : Respects r x)
    (hy : Respects r y) : Respects r (if c then x else y) := by
  split
  · exact hx
  · exact hy

@[simp]
theorem respects_ofExcept (e : Except Fault α) : Respects r (ofExcept e) := by
  cases e with
  | ok a => exact respects_pure a
  | error f => exact respects_fault f

@[simp]
theorem respects_mapM {f : α → Run β} (hf : ∀ a, Respects r (f a)) (items : List α) :
    Respects r (items.mapM f) := by
  induction items with
  | nil => simp
  | cons a items ih => simp [hf, ih]

@[simp]
theorem respects_arrayMapM {f : α → Run β} (hf : ∀ a, Respects r (f a)) (items : Array α) :
    Respects r (items.mapM f) := by
  rw [Array.mapM_eq_mapM_toList]
  exact respects_map _ (respects_mapM hf _)

@[simp]
theorem respects_foldlM {f : β → α → Run β} (hf : ∀ b a, Respects r (f b a)) (items : List α)
    (b : β) : Respects r (items.foldlM f b) := by
  induction items generalizing b with
  | nil => exact respects_pure _
  | cons a items ih =>
    rw [List.foldlM_cons]
    exact respects_bind (hf b a) ih

@[simp]
theorem respects_forM {f : α → Run Unit} (hf : ∀ a, Respects r (f a)) (items : List α) :
    Respects r (items.forM f) := by
  induction items with
  | nil => exact respects_pure _
  | cons a items ih => exact respects_bind (hf a) fun _ => ih

theorem respects_changeHeap {change : Heap → α × Heap}
    (h : ∀ heap, (change heap).2.functions = heap.functions) : Respects r (changeHeap change) :=
  fun m hm => Regime.Steady.contents _ hm (h m.heap)

@[simp]
theorem respects_addTuple (items : Array Value) :
    Respects r (changeHeap (·.addTuple items)) :=
  respects_changeHeap fun _ => rfl

@[simp]
theorem respects_addFrame (b : Bindings) : Respects r (changeHeap (·.addFrame b)) :=
  respects_changeHeap fun _ => rfl

@[simp]
theorem respects_popList (l : Ref .list) : Respects r (changeHeap (·.popList l)) :=
  respects_changeHeap fun _ => rfl

@[simp]
theorem respects_newTuple (items : Array Value) : Respects r (newTuple items) :=
  respects_bind (respects_addTuple items) fun _ => respects_pure _

@[simp]
theorem respects_newList (items : Array Value) : Respects r (newList items) :=
  respects_bind (respects_changeHeap fun _ => rfl) fun _ => respects_pure _

@[simp]
theorem respects_newDict (entries : Array (Value × Value)) : Respects r (newDict entries) :=
  respects_bind (respects_changeHeap fun _ => rfl) fun _ => respects_pure _

theorem respects_modifyHeap {f : Heap → Heap} (h : ∀ heap, (f heap).functions = heap.functions) :
    Respects r (modifyHeap f) :=
  fun m hm => Regime.Steady.contents _ hm (h m.heap)

@[simp]
theorem respects_updateList (l : Ref .list) (f : Array Value → Array Value) :
    Respects r (modifyHeap (·.updateList l f)) :=
  respects_modifyHeap fun _ => rfl

@[simp]
theorem respects_setName (frame : Ref .frame) (name : String) (v : Value) :
    Respects r (modifyHeap (·.setName frame name v)) :=
  respects_modifyHeap fun _ => rfl

@[simp]
theorem respects_view (v : Value) : Respects r (view v) :=
  respects_bind respects_getHeap fun _ => respects_pure _

@[simp]
theorem respects_isTrue (v : Value) : Respects r (isTrue v) :=
  respects_bind respects_getHeap fun _ => respects_pure _

@[simp]
theorem respects_print (line : String) : Respects r (print line) :=
  fun _ hm => Regime.Steady.printed _ hm

@[simp]
theorem respects_assignName (scope : Scope) (name : String) (v : Value) :
    Respects r (Run.bind scope name v) := by
  cases scope with
  | nil => exact respects_pure _
  | cons frame outer => exact respects_setName frame name v

end StagedScript
