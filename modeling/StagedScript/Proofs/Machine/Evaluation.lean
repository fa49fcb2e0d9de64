import StagedScript.Evaluation.Expression
import StagedScript.Proofs.Machine.Builtin
import StagedScript.Proofs.Syntax.Binding

/-!
# Expressions and assignments keep machines sound
-/

namespace StagedScript

open Run Evaluation
open Syntax (Expr Entry FormattedPart allAssigned)

variable {guard : Guard} {m : Machine}

/-- Calls and imports keep machines sound. -/
structure Evaluation.Services.Sound (guard : Guard) (s : Services) : Prop where
  call : ∀ {m : Machine} {callee : Value} {args : List Value}, m.Sound guard →
    m.Owns guard callee → (∀ v ∈ args, m.Owns guard v) →
    Keeps guard m (s.call callee args) fun v m' => m'.Owns guard v
  load : ∀ {m : Machine} (name : String), m.Sound guard →
    Keeps guard m (s.load name) fun loaded _ => guard.Spares loaded.globals

theorem owns_global? {name : String} {v : Value} (h : Builtin.global? name = some v) :
    m.Owns guard v := by
  unfold Builtin.global? at h
  split at h
  · cases h
    trivial
  · obtain ⟨kind, -, rfl⟩ := Option.map_eq_some_iff.mp h
    trivial

theorem keeps_nameValue (hm : m.Sound guard) (scope : Scope) (name : String) :
    Keeps guard m (nameValue scope name) fun v m' => m'.Owns guard v := by
  unfold nameValue
  refine keeps_getHeap_bind ?_
  split
  · next hv => exact keeps_pure hm (hm.heap.lookup_within hv)
  · split
    · next hv => exact keeps_pure hm (owns_global? hv)
    · exact keeps_fault hm _

variable {s : Services}

mutual

theorem keeps_eval (hs : s.Sound guard) (scope : Scope) (e : Expr) {m : Machine}
    (hm : m.Sound guard) : Keeps guard m (eval s scope e) fun v m' => m'.Owns guard v := by
  match e with
  | .name id _ =>
    rw [eval]
    exact keeps_nameValue hm scope id
  | .constant value _ =>
    rw [eval]
    exact keeps_pure hm trivial
  | .formatted parts _ =>
    rw [eval]
    exact keeps_bind (keeps_evalParts hs scope parts hm) fun _ _ hm' _ _ => keeps_pure hm' trivial
  | .tuple items _ =>
    rw [eval]
    exact keeps_bind (keeps_evalAll hs scope items hm) fun _ _ hm' _ hi =>
      keeps_newTuple hm' (by simpa using hi)
  | .list items _ =>
    rw [eval]
    exact keeps_bind (keeps_evalAll hs scope items hm) fun _ _ hm' _ hi =>
      keeps_newList hm' (by simpa using hi)
  | .dict entries _ =>
    rw [eval]
    exact keeps_bind (keeps_evalEntries hs scope entries hm (by simp)) fun _ _ hm' _ he =>
      keeps_newDict hm' he
  | .member target field _ =>
    rw [eval]
    exact keeps_bind (keeps_eval hs scope target hm) fun _ _ hm' _ ht => keeps_member hm' field ht
  | .subscript target index _ =>
    rw [eval]
    refine keeps_bind (keeps_eval hs scope target hm) ?_
    intro t m' hm' _ ht
    refine keeps_bind (keeps_eval hs scope index hm') ?_
    intro i m'' hm'' hreach hi
    exact keeps_subscript hm'' (hreach.owns ht) hi
  | .call callee args _ =>
    rw [eval]
    refine keeps_bind (keeps_eval hs scope callee hm) ?_
    intro f m' hm' _ hf
    refine keeps_bind (keeps_evalAll hs scope args hm') ?_
    intro values m'' hm'' hreach hvalues
    exact hs.call hm'' (hreach.owns hf) hvalues
  | .binary op left right _ =>
    have hright {m : Machine} (hm : m.Sound guard) := keeps_eval hs scope right hm
    rw [eval]
    refine keeps_bind (keeps_eval hs scope left hm) ?_
    intro l m' hm' _ hl
    split
    · refine keeps_bind (keeps_isTrue hm' l) ?_
      intro b m'' hm'' hreach _
      cases b with
      | true => exact hright hm''
      | false => exact keeps_pure hm'' (hreach.owns hl)
    · refine keeps_bind (keeps_isTrue hm' l) ?_
      intro b m'' hm'' hreach _
      cases b with
      | true => exact keeps_pure hm'' (hreach.owns hl)
      | false => exact hright hm''
    · exact keeps_bind (hright hm') fun _ _ hm'' _ _ => keeps_binary hm'' _ _ _
  | .unary op operand _ =>
    rw [eval]
    exact keeps_bind (keeps_eval hs scope operand hm) fun _ _ hm' _ _ => keeps_unary hm' op _
  | .conditional condition thenValue elseValue _ =>
    have hthen {m : Machine} (hm : m.Sound guard) := keeps_eval hs scope thenValue hm
    have helse {m : Machine} (hm : m.Sound guard) := keeps_eval hs scope elseValue hm
    rw [eval]
    refine keeps_bind (keeps_eval hs scope condition hm) ?_
    intro c m' hm' _ _
    refine keeps_bind (keeps_isTrue hm' c) ?_
    intro b m'' hm'' _ _
    cases b with
    | true => exact hthen hm''
    | false => exact helse hm''

theorem keeps_evalAll (hs : s.Sound guard) (scope : Scope) (es : List Expr) {m : Machine}
    (hm : m.Sound guard) :
    Keeps guard m (evalAll s scope es) fun vs m' => ∀ v ∈ vs, m'.Owns guard v := by
  match es with
  | [] =>
    rw [evalAll]
    exact keeps_pure hm (by simp)
  | e :: es =>
    rw [evalAll]
    refine keeps_bind (keeps_eval hs scope e hm) ?_
    intro v m' hm' _ hv
    refine keeps_bind (keeps_evalAll hs scope es hm') ?_
    intro vs m'' hm'' hreach hvs
    refine keeps_pure hm'' ?_
    rw [List.forall_mem_cons]
    exact ⟨hreach.owns hv, hvs⟩

theorem keeps_evalEntries (hs : s.Sound guard) (scope : Scope) (entries : List Entry)
    {m : Machine} (hm : m.Sound guard) {found : Array (Value × Value)}
    (hfound : ∀ e ∈ found, m.Owns guard e.1 ∧ m.Owns guard e.2) :
    Keeps guard m (evalEntries s scope found entries) fun es m' =>
      ∀ e ∈ es, m'.Owns guard e.1 ∧ m'.Owns guard e.2 := by
  match entries with
  | [] =>
    rw [evalEntries]
    exact keeps_pure hm hfound
  | .pair key value :: entries =>
    rw [evalEntries]
    refine keeps_bind (keeps_eval hs scope key hm) ?_
    intro k m₁ hm₁ hreach₁ hk
    refine keeps_bind (keeps_checkHashable hm₁ k) ?_
    rintro _ m₂ hm₂ hreach₂ -
    refine keeps_bind (keeps_eval hs scope value hm₂) ?_
    intro v m₃ hm₃ hreach₃ hv
    refine keeps_getHeap_bind (keeps_evalEntries hs scope entries hm₃ ?_)
    have hreach := (hreach₁.trans hreach₂).trans hreach₃
    exact within_insertEntry ((hreach₂.trans hreach₃).owns hk) hv
      fun e he => (hfound e he).imp hreach.owns hreach.owns

theorem keeps_evalParts (hs : s.Sound guard) (scope : Scope) (parts : List FormattedPart)
    {m : Machine} (hm : m.Sound guard) :
    Keeps guard m (evalParts s scope parts) fun _ _ => True := by
  match parts with
  | [] =>
    rw [evalParts]
    exact keeps_pure hm trivial
  | .literal text :: parts =>
    rw [evalParts]
    exact keeps_bind (keeps_evalParts hs scope parts hm) fun _ _ hm' _ _ => keeps_pure hm' trivial
  | .field value written :: parts =>
    have hrest {m : Machine} (hm : m.Sound guard) := keeps_evalParts hs scope parts hm
    rw [evalParts]
    refine keeps_bind (keeps_eval hs scope value hm) ?_
    intro v m' hm' _ _
    refine keeps_bind (keeps_view hm' v) ?_
    intro d m'' hm'' _ _
    exact keeps_bind (hrest hm'') fun _ _ hm₃ _ _ => keeps_pure hm₃ trivial

end

def Scope.BindsAll (guard : Guard) (scope : Scope) (names : List String) : Prop :=
  ∀ name ∈ names, scope.Binds guard name

theorem Scope.bindsAll_append {scope : Scope} {first second : List String} :
    scope.BindsAll guard (first ++ second) ↔
      scope.BindsAll guard first ∧ scope.BindsAll guard second :=
  List.forall_mem_append

/-- In a scope without guarded variables every name may be bound. -/
theorem Scope.bindsAll_of_spares {frame : Ref .frame} {outer : Scope} (h : guard.Spares frame)
    (names : List String) : Scope.BindsAll guard (frame :: outer) names := by
  rintro name - _ hhead
  obtain rfl : frame = _ := Option.some.inj hhead
  exact h name

mutual

theorem keeps_assign (hs : s.Sound guard) (scope : Scope) (target : Expr)
    (hscope : scope.BindsAll guard target.assigned) {m : Machine} {value : Value}
    (hm : m.Sound guard) (hv : m.Owns guard value) :
    Keeps guard m (assign s scope target value) fun _ _ => True := by
  have unpack (targets : List Expr)
      (hall : ∀ {m : Machine} {items : List Value}, m.Sound guard →
        (∀ v ∈ items, m.Owns guard v) →
        Keeps guard m (assignAll s scope targets items) fun _ _ => True) :
      Keeps guard m
        (do
          let items ← iterate value
          if items.length < targets.length then
            fault (.tooFewToUnpack targets.length items.length)
          else if targets.length < items.length then
            fault (.tooManyToUnpack targets.length)
          else
            assignAll s scope targets items)
        fun _ _ => True := by
    refine keeps_bind (keeps_iterate hm value) ?_
    intro items m' hm' _ hi
    split
    · exact keeps_fault hm' _
    · split
      · exact keeps_fault hm' _
      · exact hall hm' hi
  match target with
  | .name id _ =>
    rw [assign]
    exact keeps_assignName hm (hscope id (by simp [Expr.assigned])) hv
  | .tuple targets _ =>
    rw [assign]
    exact unpack targets fun hm' hi => keeps_assignAll hs scope targets hscope hm' hi
  | .list targets _ =>
    rw [assign]
    exact unpack targets fun hm' hi => keeps_assignAll hs scope targets hscope hm' hi
  | .subscript target index _ =>
    rw [assign]
    refine keeps_bind (keeps_eval hs scope target hm) ?_
    intro t m₁ hm₁ hreach₁ _
    refine keeps_bind (keeps_eval hs scope index hm₁) ?_
    intro i m₂ hm₂ hreach₂ hi
    exact keeps_setItem hm₂ hi ((hreach₁.trans hreach₂).owns hv)
  | .member target field _ =>
    rw [assign]
    refine keeps_bind (keeps_eval hs scope target hm) ?_
    intro t m' hm' hreach ht
    split
    · exact keeps_setName hm' (ht field) (hreach.owns hv)
    · exact keeps_fault hm' _
  | .constant _ _ | .formatted _ _ | .dict _ _ | .call _ _ _ | .binary _ _ _ _ | .unary _ _ _
  | .conditional _ _ _ _ =>
    rw [assign]
    · exact keeps_fault hm _
    all_goals simp

theorem keeps_assignAll (hs : s.Sound guard) (scope : Scope) (targets : List Expr)
    (hscope : scope.BindsAll guard (allAssigned targets)) {m : Machine} {values : List Value}
    (hm : m.Sound guard) (hv : ∀ v ∈ values, m.Owns guard v) :
    Keeps guard m (assignAll s scope targets values) fun _ _ => True := by
  match targets, values with
  | [], _ =>
    rw [assignAll]
    · exact keeps_pure hm trivial
    · simp
  | _ :: _, [] =>
    rw [assignAll]
    · exact keeps_pure hm trivial
    · simp
  | target :: targets, value :: values =>
    obtain ⟨hfirst, hrest⟩ := Scope.bindsAll_append.mp hscope
    rw [assignAll]
    refine keeps_bind (keeps_assign hs scope target hfirst hm (hv value (by simp))) ?_
    intro _ m' hm' hreach _
    exact keeps_assignAll hs scope targets hrest hm' fun v hmem =>
      hreach.owns (hv v (by simp [hmem]))

end

end StagedScript
