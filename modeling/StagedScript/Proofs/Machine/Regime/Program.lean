import StagedScript.Proofs.Machine.Regime.Evaluation
import StagedScript.Staging.Precompute

/-!
# Programs make allowed changes

Calls and imports are proved to lead where they may by induction on how deep
they nest, so `services_respect` holds for every program, whatever its outcome,
and with it what is evaluated ahead of time.
-/

namespace StagedScript

open Run Evaluation Staging
open Syntax (Block Param SyntaxFault)

variable {r : Regime} {m : Machine} {s : Services}

section Calls

variable [r.Steady]

theorem respects_bindParams (f : Function) (args : List Value) :
    Respects r (bindParams f args) := by
  unfold bindParams
  dsimp only
  refine respects_ite (respects_bind (respects_fault _) fun _ => ?_) ?_
  all_goals
    refine respects_foldlM (fun b param => ?_) _ _
    split
    · exact respects_pure _
    · exact respects_fault _

theorem respects_callFunction (hs : s.Respect r) {f : Function} (args : List Value)
    (hbody : r.AdmitsAll f.body) : Respects r (callFunction s f args) := by
  have run {frame : Ref .frame} {m : Machine} (hm : r.holds m) (hdepth : m.depth < maxDepth) :
      RespectsFrom r m
        (bracket Machine.enterCall Machine.leaveCall (execBlock s (frame :: f.scope) f.body)) := by
    have hinner := respects_execBlock hs (frame :: f.scope) f.body hbody m.enterCall
      (Regime.Steady.entered hm hdepth)
    unfold RespectsFrom at hinner ⊢
    unfold bracket
    cases hrun : execBlock s (frame :: f.scope) f.body m.enterCall with
    | ok a m' =>
      rw [hrun] at hinner
      exact Regime.Steady.left hm hdepth hinner
    | error e m' =>
      rw [hrun] at hinner
      exact Regime.Steady.left hm hdepth hinner
  unfold callFunction
  refine respects_bind (respects_bindParams f args) fun b => ?_
  refine respects_bind (respects_addFrame b) fun frame => ?_
  intro m hm
  change RespectsFrom r m (if maxDepth ≤ m.depth then _ else _)
  split
  · exact respectsFrom_bind hm (respects_fault _ m hm) fun _ _ h => nomatch h
  · next hdepth =>
    refine respectsFrom_bind hm (run hm (Nat.lt_of_not_le hdepth)) fun flow m' _ hm' => ?_
    split
    · exact respects_pure _ m' hm'
    · exact respects_pure _ m' hm'

theorem respects_newException (kind : ExceptionKind) (args : List Value) :
    Respects r (newException kind args) := by
  unfold newException
  split
  · simp
  · simp
  · simp

theorem respects_callBuiltin (f : Builtin) (args : List Value) :
    Respects r (callBuiltin f args) := by
  cases f with
  | global f => exact respects_callGlobal f args
  | math f => exact respects_callMath f args
  | form f => exact respects_fault _

theorem respects_register (f : Entity) (args : List Value) : Respects r (register f args) :=
  respects_bind (fun _ hm => Regime.Steady.registered _ hm) fun _ => respects_pure _

theorem respects_applyAwaiting (spec : Ref .tuple) (args : List Value) :
    Respects r (applyAwaiting spec args) := by
  unfold applyAwaiting
  split
  · exact respects_bind respects_getHeap fun _ => respects_register _ _
  · exact respects_fault _

theorem respects_applyMarker (marker : Marker) (args : List Value) :
    Respects r (applyMarker marker args) := by
  unfold applyMarker
  cases marker with
  | comptime =>
    dsimp only
    split
    · exact respects_register _ _
    · exact respects_map _ (respects_addTuple _)
  | skip =>
    dsimp only
    split
    · exact respects_pure _
    · split
      · exact respects_bind respects_get fun _ => respects_pure _
      · exact respects_fault _
  | getRegistrations =>
    refine respects_ite ?_ (respects_fault _)
    refine respects_bind respects_get fun machine => ?_
    refine respects_bind (respects_mapM (fun reg => ?_) _) fun _ => respects_newDict _
    exact respects_map _ (respects_newTuple _)

theorem respects_callEntity (hs : s.Respect r) (e : Entity) (args : List Value) :
    Respects r (callEntity s e args) := by
  induction e with
  | function code name =>
    rw [callEntity]
    intro m hm
    refine respectsFrom_bind hm (respects_getHeap m hm) ?_
    rintro heap m' ⟨⟩ -
    split
    · next f hf =>
      exact respects_callFunction hs args (Regime.Steady.body hm hf) m hm
    · exact respects_fault _ m hm
  | builtin f =>
    rw [callEntity]
    exact respects_callBuiltin f args
  | marker marker =>
    rw [callEntity]
    exact respects_applyMarker marker args
  | skipped inner ih =>
    rw [callEntity]
    exact respects_bind respects_get fun _ => respects_ite (respects_pure _) ih
  | exceptionType kind =>
    rw [callEntity]
    exact respects_newException kind args
  | module name globals =>
    rw [callEntity]
    exact respects_fault _
  | exception e =>
    rw [callEntity]
    exact respects_fault _

theorem respects_callValue (hs : s.Respect r) (callee : Value) (args : List Value) :
    Respects r (callValue s callee args) := by
  unfold callValue
  split
  · exact respects_callEntity hs _ args
  · exact respects_callMethod _ _ args
  · exact respects_applyAwaiting _ args
  · exact respects_fault _

end Calls

section Modules

variable [r.Lawful]

/-! ## Modules -/

theorem respects_keepModule (name : String) (loaded : LoadedModule) :
    Respects r
      (modify fun machine => { machine with modules := machine.modules.insert name loaded }) :=
  fun _ hm => Regime.Lawful.kept name loaded hm

theorem respects_execBody (hs : s.Respect r) (spec : ModuleSpec) {body : Block}
    (hbody : r.AdmitsAll body) : Respects r (execBody s spec body) := by
  unfold execBody
  refine respects_bind (respects_addFrame _) fun globals => ?_
  refine respects_bind (respects_execBlock hs [globals] body hbody) fun _ => ?_
  exact respects_bind (respects_keepModule _ _) fun _ => respects_pure _

theorem respects_execSource (hs : s.Respect r) (spec : ModuleSpec) {source : String}
    (hbody : ∀ body, Syntax.readModule source = .ok body → r.AdmitsAll body) :
    Respects r (execSource s spec source) := by
  unfold execSource
  split
  · exact respects_pure _
  · next body hread => exact respects_map _ (respects_execBody hs spec (hbody body hread))

theorem respects_addModule (name : String) (globals : Bindings) :
    Respects r (addModule name globals) := by
  unfold addModule
  refine respects_bind (respects_addFrame _) fun frame => ?_
  exact respects_bind (respects_keepModule _ _) fun _ => respects_pure _

theorem ofExcept_ok {α : Type} {e : Except Fault α} {a : α} {m m' : Machine}
    (h : Run.ofExcept e m = .ok a m') : e = .ok a ∧ m' = m := by
  cases e with
  | ok b =>
    cases h
    exact ⟨rfl, rfl⟩
  | error f => cases h

theorem respectsFrom_whileLoading {modules : ModuleCache} {name : String}
    {x : Run (Except SyntaxFault LoadedModule)} (hx : Respects r x) (hm : r.holds m)
    (hbegin : m.modules.beginLoading name = .ok modules) :
    RespectsFrom r m (whileLoading modules name x) := by
  have hinner := hx { m with modules := modules } (Regime.Lawful.begun hm hbegin)
  unfold RespectsFrom at hinner ⊢
  unfold whileLoading
  cases hrun : x { m with modules := modules } with
  | ok result m' =>
    rw [hrun] at hinner
    exact Regime.Lawful.finished _ hm hbegin hinner
  | error e m' =>
    rw [hrun] at hinner
    exact Regime.Lawful.finished _ hm hbegin hinner

theorem respects_loadFile (hs : s.Respect r) (path : String) (spec : ModuleSpec) :
    Respects r (loadFile s path spec) := by
  unfold loadFile
  intro m hm
  refine respectsFrom_bind hm (respects_get m hm) ?_
  rintro machine m' ⟨⟩ -
  split
  · exact respects_fault _ m hm
  · next source hread =>
    have hbody : ∀ body, Syntax.readModule source = .ok body → r.AdmitsAll body :=
      fun body h => Regime.Lawful.file hm hread h
    refine respectsFrom_bind hm (respects_get m hm) ?_
    rintro machine m' ⟨⟩ -
    refine respectsFrom_bind hm (respects_ofExcept _ m hm) ?_
    intro modules m₁ hbegin hm₁
    obtain ⟨hbegin, rfl⟩ := ofExcept_ok hbegin
    refine respectsFrom_bind hm ?_ fun result m' _ hm' => ?_
    · exact respectsFrom_whileLoading (respects_execSource hs spec hbody) hm hbegin
    · split
      · exact respects_pure _ m' hm'
      · exact respects_fault _ m' hm'

theorem respects_findAndLoad (hs : s.Respect r) (name : String) :
    Respects r (findAndLoad s name) := by
  unfold findAndLoad
  generalize splitName? name = outer
  cases outer with
  | none =>
    dsimp only
    refine respects_bind respects_get fun machine => ?_
    split
    · exact respects_bind (respects_fault _) fun _ => respects_pure _
    · exact respects_bind (respects_addModule _ _) fun _ => respects_pure _
    · exact respects_bind (respects_loadFile hs _ _) fun _ => respects_pure _
    · exact respects_bind (respects_loadFile hs _ _) fun _ => respects_pure _
  | some names =>
    obtain ⟨package, child⟩ := names
    dsimp only
    refine respects_bind (hs.load package) fun _ => respects_bind respects_get fun machine => ?_
    -- Whichever way the module is loaded, it is then put into its package.
    split
    all_goals
      refine respects_bind ?_ fun loaded => respects_bind respects_get fun machine => ?_
      · first
        | exact respects_fault _
        | exact respects_addModule _ _
        | exact respects_loadFile hs _ _
      · split
        · exact respects_bind (respects_setName _ _ _) fun _ => respects_pure _
        · exact respects_pure _

theorem respects_loadModule (hs : s.Respect r) (name : String) :
    Respects r (loadModule s name) := by
  unfold loadModule
  refine respects_bind respects_get fun machine => ?_
  split
  · exact respects_pure _
  · split
    · exact respects_addModule _ _
    · exact respects_findAndLoad hs name

end Modules

/-- Calls and imports make allowed changes only, however deep they nest. -/
theorem services_respect (r : Regime) [r.Lawful] (rounds n : Nat) :
    (services rounds n).Respect r := by
  induction n with
  | zero => exact ⟨fun _ _ => respects_throw _, fun _ => respects_throw _⟩
  | succ n ih =>
    exact ⟨fun callee args => respects_callValue ih callee args,
      fun name => respects_loadModule ih name⟩

section Ahead

variable [r.Steady]

section Running

variable {spec : ModuleSpec} {source : String}
  (hexec : Respects r (execSource fullServices spec source))

include hexec

theorem respects_runModule : Respects r (runModule spec source) := by
  unfold runModule
  refine respects_bind hexec fun result => ?_
  split
  · exact respects_pure _
  · exact respects_pure _

theorem respects_collect : Respects r (collect spec source) := by
  unfold collect
  refine respects_bind (fun _ hm => Regime.Steady.registered _ hm) fun _ => ?_
  refine respects_bind (respects_runModule hexec) fun result => ?_
  split
  · exact respects_bind respects_get fun _ => respects_pure _
  · exact respects_pure _

end Running

omit [r.Steady] in
theorem respects_aheadOfTime {α : Type} {x : Run α}
    (henter : ∀ {m}, r.holds m → r.holds { m with ahead := true })
    (hleave : ∀ {m m' : Machine}, r.leads { m with ahead := true } m' →
      r.leads m { m' with ahead := m.ahead })
    (hx : Respects r x) : Respects r (aheadOfTime x) := by
  intro m hm
  have hinner := hx { m with ahead := true } (henter hm)
  change RespectsFrom r m
    (bracket (fun m => { m with ahead := true }) (fun m' => { m' with ahead := m.ahead }) x)
  unfold RespectsFrom bracket at *
  cases hrun : x { m with ahead := true } with
  | ok a m' =>
    rw [hrun] at hinner
    exact hleave hinner
  | error e m' =>
    rw [hrun] at hinner
    exact hleave hinner

theorem respects_callVariants (hs : fullServices.Respect r) (reg : Registration)
    (results : Results Value) (keys : List (ArgKey Value)) :
    Respects r (callVariants reg results keys) := by
  induction keys generalizing results with
  | nil => exact respects_pure _
  | cons key keys ih =>
    rw [callVariants]
    refine respects_bind (hs.call _ _) fun value => ?_
    exact respects_bind respects_getHeap fun heap => ih _

theorem respects_callAll (hs : fullServices.Respect r) (results : Results Value)
    (rs : Registrations) : Respects r (callAll results rs) := by
  induction rs generalizing results with
  | nil => exact respects_pure _
  | cons reg rs ih =>
    rw [callAll]
    split
    · refine respects_bind (hs.call _ _) fun value => ?_
      exact respects_bind respects_getHeap fun heap => ih _
    · refine respects_bind respects_getHeap fun heap => ?_
      exact respects_bind (respects_callVariants hs _ _ _) fun results => ih results

end Ahead

end StagedScript
