import StagedScript.Proofs.Evaluation.Calling
import StagedScript.Proofs.Rewriting.Replacement
import StagedScript.Proofs.Rewriting.Subject

/-!
# Calls of rewritten functions

A rewritten function has its old parameters, and its body is the string that documented
it and what is made from its results.  A call therefore runs what was made from the
results.  Only the first parameters are looked at there, as many as the keys have
values: `call_runs_new_body`.  A function with one result gives it whatever the
arguments are: `call_returns_whole`.
-/

namespace StagedScript.Rewriting

open Evaluation
open Run (bind_of_ok)
open Syntax (Block FunctionHeader)

variable {s : Services} {scope : Scope}

/-- The string in front of a body does nothing. -/
theorem execBlock_docstring (old new : Block) (m : Machine) :
    execBlock s scope (docstringStmts old ++ new) m = execBlock s scope new m := by
  unfold docstringStmts
  split
  · next text _ =>
    have hstring : exec s scope (.expr (.string text)) m = .ok .normal m := rfl
    rw [List.cons_append, execBlock, bind_of_ok hstring]
    rfl
  · rfl

section Calls

variable {plan : Plan} {header header' : FunctionHeader} {body body' : Block} {t t' : Trace}
  {defaults : List (Option Value)} {closure : Scope} {args values : List Value} {m : Machine}

/-- A call of a rewritten function runs what was made from its results.  The parameters that choose a
result have the first values of the call there, and names that are no parameters have the values
that they have where the function was defined. -/
theorem call_runs_new_body
    (hrewritten : (rewriteMarked plan header body).run t = .ok (.function header' body', t'))
    (hfills : Fills defaults args values) (hlength : defaults.length = header.params.length)
    (hdepth : m.depth < maxDepth) :
    ∃ newBody, MadeFrom plan header newBody ∧
      let variants := plan.results.variants header.name
      let inner := called m ⟨header', body', defaults, closure⟩ values
      ((header.params.map (·.name)).Nodup →
        Binds inner.heap (⟨m.heap.frames.size⟩ :: closure) (choosing header variants)
          (values.take (arity variants))) ∧
      ((∀ r ∈ closure, r.index < m.heap.frames.size) →
        ∀ name ∉ header.params.map (·.name),
          inner.heap.lookup? (⟨m.heap.frames.size⟩ :: closure) name =
            m.heap.lookup? closure name) ∧
      callFunction s ⟨header', body', defaults, closure⟩ args m =
        callOutcome (execBlock s (⟨m.heap.frames.size⟩ :: closure) newBody inner) := by
  obtain ⟨header'', newBody, hstmt, hparams, hmade⟩ :=
    yields_rewriteMarked_made plan header body t _ t' hrewritten
  cases hstmt
  let f : Function := ⟨header', docstringStmts body ++ newBody, defaults, closure⟩
  have hsize : f.defaults.length = f.header.params.length := by
    have hsame := congrArg List.length hparams
    rw [List.length_map, List.length_map] at hsame
    exact hlength.trans hsame.symm
  refine ⟨newBody, hmade, fun hnames => ?_, fun hclosure name hname => ?_, ?_⟩
  · have hbinds := lookup?_called (f := f) hfills hsize (hparams ▸ hnames) m
    rw [show f.header.params.map (·.name) = _ from hparams] at hbinds
    rw [choosing, List.map_take]
    exact List.forall₂_take _ hbinds
  · exact lookup?_called_of_notMem (f := f) hclosure (hparams.symm ▸ hname) values
  · have hcall := callFunction_eq (s := s) (f := f) hfills hsize hdepth
    rw [show f.body = docstringStmts body ++ newBody from rfl, execBlock_docstring] at hcall
    exact hcall

/-- A call of a function with one result gives a value with its contents, whatever the arguments
are. -/
theorem call_returns_whole
    (hrewritten : (rewriteMarked plan header body).run t = .ok (.function header' body', t'))
    (hvariants : plan.results.variants header.name = [])
    (hproper : ∀ d, plan.results.whole? header.name = some d → d.Proper)
    (hfills : Fills defaults args values) (hlength : defaults.length = header.params.length)
    (hdepth : m.depth < maxDepth) :
    ∃ d value m', plan.results.whole? header.name = some d ∧
      callFunction s ⟨header', body', defaults, closure⟩ args m = .ok value m' ∧
        (m'.heap.view value).contents = d.contents := by
  obtain ⟨newBody, hmade, -, -, hcall⟩ := call_runs_new_body hrewritten hfills hlength hdepth
  cases hmade with
  | variants hsome => exact absurd hvariants hsome
  | @whole d e _ hwhole he =>
    obtain ⟨value, m', hrun, -, hcontents⟩ := execBlock_returning_literal he (hproper d hwhole)
      (called m ⟨header', body', defaults, closure⟩ values)
    rw [hrun] at hcall
    exact ⟨d, value, m'.leaveCall, hwhole, hcall, hcontents⟩

end Calls

end StagedScript.Rewriting
