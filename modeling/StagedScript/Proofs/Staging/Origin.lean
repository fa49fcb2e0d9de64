import StagedScript.Compile.Compilation
import StagedScript.Proofs.Machine.Regime.Program
import StagedScript.Proofs.Outcome
import StagedScript.Proofs.Staging.Table

/-!
# Where inlined results come from

A compiled function holds what the calls of one function returned: the one that
was registered last under its name.  That function was made by a definition of
this name in a file, or it is built in.  Nothing else ties results to the
definitions that they are inlined into, so of two definitions with one name the
later one answers for both.
-/

namespace StagedScript

open Evaluation (ModuleSpec fullServices)
open Run Staging
open Syntax (Block Definition FunctionHeader definitionsIn)

/-! ## Functions and definitions -/

def FileTree.DefinesAt (files : FileTree) (place : List String) (d : Definition) : Prop :=
  ∃ bytes source body, files.node? place = some (.file bytes) ∧
    String.fromUTF8? bytes = some source ∧ Syntax.readModule source = .ok body ∧
      d ∈ definitionsIn body

def FileTree.Defines (files : FileTree) (d : Definition) : Prop :=
  ∃ place, files.DefinesAt place d

/-- What is read at a path is the text of the file at the place that the path leads to. -/
theorem FileTree.read_eq_ok {files : FileTree} {path source : String}
    (h : files.read path = .ok source) :
    ∃ place bytes, files.place path = .ok place ∧ files.node? place = some (.file bytes) ∧
      String.fromUTF8? bytes = some source := by
  obtain ⟨⟨place, node⟩, hfind, htext⟩ := exists_of_bind_eq_ok h
  obtain ⟨place', hplace, hnode⟩ := exists_of_bind_eq_ok hfind
  split at hnode
  · next node' hnode' =>
    cases hnode
    cases node with
    | directory => cases htext
    | file bytes =>
      dsimp only at htext
      split at htext
      · next text htext' =>
        cases htext
        exact ⟨place, bytes, hplace, hnode', htext'⟩
      · cases htext
  · cases hnode

/-- The definitions in the text at a path stand at the place that the path leads to. -/
theorem FileTree.definesAt_of_read {files : FileTree} {path source : String} {body : Block}
    (hread : files.read path = .ok source) (hbody : Syntax.readModule source = .ok body) :
    ∃ place, files.place path = .ok place ∧ ∀ d ∈ definitionsIn body, files.DefinesAt place d := by
  obtain ⟨place, bytes, hplace, hnode, htext⟩ := FileTree.read_eq_ok hread
  exact ⟨place, hplace, fun d hd => ⟨bytes, source, body, hnode, htext, hbody, hd⟩⟩

/-- The function was made by executing the definition, and then perhaps wrapped to be skipped. -/
def Entity.MadeBy (h : Heap) (d : Definition) : Entity → Prop
  | .function code _ => ∃ f, h.function? code = some f ∧ (f.header, f.body) = d
  | .skipped inner => inner.MadeBy h d
  | _ => False

/-- The built-in function that was perhaps wrapped to be skipped. -/
def Entity.builtin? : Entity → Option Builtin
  | .builtin f => some f
  | .skipped inner => inner.builtin?
  | _ => none

theorem Entity.MadeBy.mono {guard : Guard} {h h' : Heap} (hg : h.Grows guard h') {d : Definition}
    {e : Entity} (he : e.MadeBy h d) : e.MadeBy h' d := by
  induction e with
  | function code name =>
    obtain ⟨f, hf, hd⟩ := he
    exact ⟨f, hg.function?_eq hf, hd⟩
  | skipped inner ih => exact ih he
  | _ => exact he

/-- The regime under which only definitions in the files are executed. -/
def fromFiles (files : FileTree) : Regime where
  holds m := m.files = files ∧ ∀ f ∈ m.heap.functions, files.Defines (f.header, f.body)
  leads m m' := m'.files = m.files ∧
    ∀ f ∈ m'.heap.functions, f ∈ m.heap.functions ∨ files.Defines (f.header, f.body)
  admits := files.Defines

instance (files : FileTree) : (fromFiles files).Lawful where
  refl _ := ⟨rfl, fun _ hf => .inl hf⟩
  trans first second :=
    ⟨second.1.trans first.1, fun f hf => (second.2 f hf).elim (first.2 f) .inr⟩
  holds_of_leads hm h := ⟨h.1.trans hm.1, fun f hf => (h.2 f hf).elim (hm.2 f) id⟩
  contents _ _ heq := ⟨rfl, fun _ hf => .inl (heq ▸ hf)⟩
  printed _ _ := ⟨rfl, fun _ hf => .inl hf⟩
  defined f _ hadmits := by
    refine ⟨rfl, fun other ho => ?_⟩
    rcases Array.mem_push.mp ho with ho | rfl
    · exact .inl ho
    · exact .inr hadmits
  registered _ _ := ⟨rfl, fun _ hf => .inl hf⟩
  kept _ _ _ := ⟨rfl, fun _ hf => .inl hf⟩
  entered hm _ := hm
  left _ _ h := h
  begun hm _ := hm
  finished _ _ _ h := h
  body hm hf d hd := by
    obtain ⟨place, bytes, source, body, hnode, htext, hbody, hmem⟩ :=
      hm.2 _ (Array.mem_of_getElem? hf)
    exact ⟨place, bytes, source, body, hnode, htext, hbody,
      Syntax.definitionsIn_trans hmem hd⟩
  file hm hread hbody d hd := by
    obtain ⟨place, -, hdefines⟩ := FileTree.definesAt_of_read (hm.1 ▸ hread) hbody
    exact ⟨place, hdefines d hd⟩

/-- A function value of a sound machine is built in, or it was made by a definition that has its
name. -/
theorem Entity.builtin_or_madeBy {guard : Guard} {h : Heap} {P : Definition → Prop}
    (hfunctions : ∀ f ∈ h.functions, P (f.header, f.body)) {e : Entity} (he : e.IsFunction)
    (hsound : e.Sound guard h.functionNames) :
    (∃ f, e.builtin? = some f ∧ f.name = e.functionName) ∨
      ∃ d, P d ∧ d.1.name = e.functionName ∧ e.MadeBy h d := by
  induction e with
  | function code name =>
    have hname : (h.functions.toList.map (·.header.name))[code.index]? = some name := hsound
    rw [List.getElem?_map, Option.map_eq_some_iff] at hname
    obtain ⟨f, hf, rfl⟩ := hname
    rw [Array.getElem?_toList] at hf
    exact .inr ⟨_, hfunctions f (Array.mem_of_getElem? hf), rfl, f, hf, rfl⟩
  | builtin f => exact .inl ⟨f, rfl, rfl⟩
  | skipped inner ih => exact ih hsound.1 hsound.2
  | _ => exact he.elim

namespace Staging

/-! ## Calls and entries -/

/-- The call at place `i` of a trace was made to the function, in this machine. -/
structure Trace.Made (t : Trace) (i : Nat) (call : Call) (callable : Value) (before : Machine) :
    Prop where
  call_at : t.calls[i]? = some call
  before_eq : perform ((plan t.ready.heap t.registered).take i) t.ready =
    .ok (t.calls.take i) before
  returned : ∃ after, fullServices.call callable call.key.arguments before = .ok call.value after ∧
    call.heap = after.heap

theorem perform_take {m m' : Machine} {planned : List (Value × ResultKey Value)}
    {calls : List Call} (h : perform planned m = .ok calls m') {i : Nat} {call : Call}
    (hi : calls[i]? = some call) :
    ∃ callable before after, planned[i]? = some (callable, call.key) ∧
      perform (planned.take i) m = .ok (calls.take i) before ∧
      fullServices.call callable call.key.arguments before = .ok call.value after ∧
      call.heap = after.heap := by
  induction planned generalizing m calls i with
  | nil =>
    obtain ⟨rfl, -⟩ := pure_ok h
    simp at hi
  | cons p planned ih =>
    obtain ⟨callable, key⟩ := p
    obtain ⟨value, m₁, others, hcall, hothers, rfl⟩ := perform_cons h
    cases i with
    | zero =>
      obtain rfl := Option.some.inj hi
      exact ⟨callable, m, m₁, rfl, rfl, hcall, rfl⟩
    | succ i =>
      obtain ⟨callable', before, after, hplanned, hbefore, hreturned, hheap⟩ := ih hothers hi
      exact ⟨callable', before, after, hplanned, perform_cons_of_ok hcall hbefore, hreturned,
        hheap⟩

/-- What a trace consists of. -/
theorem trace?_eq_some {spec : ModuleSpec} {source : String} {m : Machine} {t : Trace}
    (h : trace? spec source m = some t) :
    collect spec source { m with ahead := true } = .ok (.ok t.registered) t.ready ∧
      ∃ last, perform (plan t.ready.heap t.registered) t.ready = .ok t.calls last := by
  unfold trace? at h
  split at h
  · next registered ready hcollect =>
    split at h
    · next calls last hperform =>
      obtain rfl := Option.some.inj h
      exact ⟨hcollect, last, hperform⟩
    · cases h
  · cases h

/-- Each planned call is made to a registered function and recorded under its name. -/
theorem registered_of_mem_plan {h : Heap} {rs : Registrations} {callable : Value}
    {key : ResultKey Value} (hmem : (callable, key) ∈ plan h rs) :
    ∃ r ∈ rs, r.callable = callable ∧ r.name = key.function := by
  obtain ⟨r, hr, hmem⟩ := List.mem_flatMap.mp hmem
  obtain ⟨key', hkey, heq⟩ := List.mem_map.mp hmem
  cases heq
  refine ⟨r, hr, rfl, ?_⟩
  unfold keysOf at hkey
  split at hkey
  · obtain rfl := List.mem_singleton.mp hkey
    rfl
  · obtain ⟨args, -, rfl⟩ := List.mem_map.mp hkey
    rfl

/-- What an evaluation ahead of time of a file calls is built in or was made by a definition in a
file, and it has the name under which it was registered. -/
theorem builtin_or_madeBy_of_trace {guard : Guard} {m : Machine} (hm : m.Sound guard)
    (hempty : m.heap.functions = #[]) {path : String} {spec : ModuleSpec} {source : String}
    (hread : m.files.read path = .ok source) {t : Trace} (ht : trace? spec source m = some t)
    {r : Registration} (hr : r ∈ t.registered) :
    ∃ e, r.callable = .entity e ∧
      ((∃ f, e.builtin? = some f ∧ f.name = r.name) ∨
        ∃ d, m.files.Defines d ∧ d.1.name = r.name ∧ e.MadeBy t.ready.heap d) := by
  obtain ⟨hcollect, -⟩ := trace?_eq_some ht
  have hahead : ({ m with ahead := true } : Machine).Sound guard :=
    ⟨hm.heap, hm.modules, hm.callables, hm.args, hm.named, hm.names⟩
  obtain ⟨hready, -, hregistered⟩ := Keeps.of_ok (keeps_collect hahead spec source) hcollect
  have hregistered : t.registered = t.ready.registrations := hregistered t.registered rfl
  have hservices : Evaluation.fullServices.Respect (fromFiles m.files) := services_respect _ _ _
  have hexec : Respects (fromFiles m.files)
      (Evaluation.execSource Evaluation.fullServices spec source) := by
    refine respects_execSource hservices spec fun body hbody d hd => ?_
    obtain ⟨place, -, hdefines⟩ := FileTree.definesAt_of_read hread hbody
    exact ⟨place, hdefines d hd⟩
  have hlead := respects_collect hexec { m with ahead := true } ⟨rfl, by simp [hempty]⟩
  unfold RespectsFrom at hlead
  rw [hcollect] at hlead
  have hfunctions : ∀ f ∈ t.ready.heap.functions, m.files.Defines (f.header, f.body) :=
    fun f hf => (hlead.2 f hf).resolve_left (by simp [hempty])
  obtain ⟨e, hcallable, hfunction, hname⟩ := hready.named r (hregistered ▸ hr)
  have howned := hready.callables r (hregistered ▸ hr)
  rw [hcallable] at howned
  exact ⟨e, hcallable, hname ▸ Entity.builtin_or_madeBy hfunctions hfunction howned⟩

end Staging

end StagedScript
