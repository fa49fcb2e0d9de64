import StagedScript.Proofs.Evaluation.Acceptance
import StagedScript.Proofs.Machine.Evaluation

/-!
# Statements keep machines sound

A statement changes a guarded variable only if it binds its name in the scope
that has it.
-/

namespace StagedScript

open Run Evaluation
open Syntax (Alias Block Case Expr FunctionHeader Pattern Stmt allCaptured boundIn boundInCases)

variable {guard : Guard} {m : Machine} {s : Services}

def Evaluation.Flow.Owned (guard : Guard) (m : Machine) : Flow → Prop
  | .returned v => m.Owns guard v
  | _ => True

theorem keeps_loopWhile {condition : Run Bool} {body : Run Flow}
    (hc : ∀ {m : Machine}, m.Sound guard → Keeps guard m condition fun _ _ => True)
    (hb : ∀ {m : Machine}, m.Sound guard → Keeps guard m body fun flow m' => flow.Owned guard m')
    (hm : m.Sound guard) (n : Nat) :
    Keeps guard m (loopWhile condition body n) fun flow m' => flow.Owned guard m' := by
  induction n generalizing m with
  | zero => exact keeps_throw hm _
  | succ n ih =>
    rw [loopWhile]
    refine keeps_bind (hc hm) ?_
    intro b m₁ hm₁ _ _
    split
    · refine keeps_bind (hb hm₁) ?_
      intro flow m₂ hm₂ _ hflow
      split
      · exact keeps_pure hm₂ trivial
      · exact keeps_pure hm₂ hflow
      · exact ih hm₂
    · exact keeps_pure hm₁ trivial

theorem keeps_loopOver {body : Value → Run Flow} {items : List Value}
    (hb : ∀ {m : Machine} {v : Value}, m.Sound guard → m.Owns guard v →
      Keeps guard m (body v) fun flow m' => flow.Owned guard m')
    (hm : m.Sound guard) (hi : ∀ v ∈ items, m.Owns guard v) :
    Keeps guard m (loopOver body items) fun flow m' => flow.Owned guard m' := by
  induction items generalizing m with
  | nil => exact keeps_pure hm trivial
  | cons item items ih =>
    rw [loopOver]
    refine keeps_bind (hb hm (hi item (by simp))) ?_
    intro flow m' hm' hreach hflow
    split
    · exact keeps_pure hm' trivial
    · exact keeps_pure hm' hflow
    · exact ih hm' fun v hv => hreach.owns (hi v (by simp [hv]))

/-! ## Patterns -/

/-- What a pattern took belongs to the machine and goes to names of the pattern. -/
def Taken (guard : Guard) (names : List String) (found : Option Bindings) (m : Machine) : Prop :=
  ∀ b, found = some b → ∀ e ∈ b, e.1 ∈ names ∧ m.Owns guard e.2

theorem Taken.mono {names others : List String} {found : Option Bindings} {m : Machine}
    (h : Taken guard names found m) (hsub : ∀ n ∈ names, n ∈ others) :
    Taken guard others found m :=
  fun b hb e he => ⟨hsub _ (h b hb e he).1, (h b hb e he).2⟩

theorem taken_none (names : List String) (m : Machine) : Taken guard names none m :=
  fun _ h => nomatch h

theorem taken_nil (names : List String) (m : Machine) : Taken guard names (some []) m := by
  rintro b hb e he
  obtain rfl := Option.some.inj hb
  simp at he

theorem keeps_acceptItems? {scope : Scope} {ps : List Pattern} {items : List Value}
    {Q : Option Bindings → Machine → Prop} (hm : m.Sound guard)
    (hall : Keeps guard m (acceptAll? s scope items ps) Q) (hnone : Q Option.none m) :
    Keeps guard m (acceptItems? s scope items ps) Q := by
  rw [acceptItems?]
  split
  · exact hall
  · exact keeps_pure hm hnone

mutual

theorem keeps_accept? (hs : s.Sound guard) (scope : Scope) (p : Pattern) {m : Machine}
    {subject : Value} (hm : m.Sound guard) (hv : m.Owns guard subject) :
    Keeps guard m (accept? s scope subject p) (Taken guard p.captured) := by
  match p with
  | .wildcard =>
    rw [accept?]
    exact keeps_pure hm (taken_nil _ _)
  | .capture name =>
    rw [accept?]
    refine keeps_pure hm fun b hb e he => ?_
    obtain rfl := Option.some.inj hb
    obtain rfl := List.mem_singleton.mp he
    exact ⟨by simp [Pattern.captured], hv⟩
  | .value e =>
    rw [accept?]
    refine keeps_bind (keeps_eval hs scope e hm) ?_
    intro v m₁ hm₁ _ _
    refine keeps_bind (keeps_equal hm₁ v subject) ?_
    intro b m₂ hm₂ _ _
    refine keeps_pure hm₂ ?_
    split
    · exact taken_nil _ _
    · exact taken_none _ _
  | .sequence patterns =>
    have hitems {items : List Value} (hi : ∀ v ∈ items, m.Owns guard v) :=
      keeps_acceptItems? hm (keeps_acceptAll? hs scope patterns hm hi) (taken_none _ _)
    rw [accept?]
    refine keeps_getHeap_bind ?_
    split
    · exact hitems fun v hmem => hm.heap.tuple_within (Array.mem_toList_iff.mp hmem)
    · exact hitems fun v hmem => hm.heap.list_within (Array.mem_toList_iff.mp hmem)
    · exact keeps_pure hm (taken_none _ _)
  | .alternatives patterns =>
    rw [accept?]
    exact keeps_acceptFirst? hs scope patterns hm hv

theorem keeps_acceptAll? (hs : s.Sound guard) (scope : Scope) (ps : List Pattern) {m : Machine}
    {items : List Value} (hm : m.Sound guard) (hi : ∀ v ∈ items, m.Owns guard v) :
    Keeps guard m (acceptAll? s scope items ps) (Taken guard (allCaptured ps)) := by
  match ps with
  | [] =>
    rw [acceptAll?]
    exact keeps_pure hm (taken_nil _ _)
  | p :: ps =>
    have hhead : m.Owns guard (items.headD .none) := by
      cases items with
      | nil => trivial
      | cons v rest => exact hi v (by simp)
    have hrest {m : Machine} (hm : m.Sound guard) (hi : ∀ v ∈ items.tail, m.Owns guard v) :=
      keeps_acceptAll? hs scope ps hm hi
    rw [acceptAll?]
    refine keeps_bind (keeps_accept? hs scope p hm hhead) ?_
    intro first m₁ hm₁ hreach₁ hfirst
    split
    · exact keeps_pure hm₁ (taken_none _ _)
    · next b =>
      refine keeps_bind (hrest hm₁ fun v hv => hreach₁.owns (hi v (List.mem_of_mem_tail hv))) ?_
      intro others m₂ hm₂ hreach₂ hothers
      split
      · exact keeps_pure hm₂ (taken_none _ _)
      · next bs =>
        refine keeps_pure hm₂ fun found hfound e he => ?_
        obtain rfl := Option.some.inj hfound
        simp only [allCaptured, List.mem_append] at he ⊢
        rcases he with he | he
        · obtain ⟨hname, howned⟩ := hfirst b rfl e he
          exact ⟨.inl hname, hreach₂.owns howned⟩
        · obtain ⟨hname, howned⟩ := hothers bs rfl e he
          exact ⟨.inr hname, howned⟩

theorem keeps_acceptFirst? (hs : s.Sound guard) (scope : Scope) (ps : List Pattern) {m : Machine}
    {subject : Value} (hm : m.Sound guard) (hv : m.Owns guard subject) :
    Keeps guard m (acceptFirst? s scope subject ps) (Taken guard (allCaptured ps)) := by
  match ps with
  | [] =>
    rw [acceptFirst?]
    exact keeps_pure hm (taken_none _ _)
  | p :: ps =>
    have hrest {m : Machine} (hm : m.Sound guard) (hv : m.Owns guard subject) :=
      keeps_acceptFirst? hs scope ps hm hv
    rw [acceptFirst?]
    refine keeps_bind (keeps_accept? hs scope p hm hv) ?_
    intro first m' hm' hreach hfirst
    split
    · exact keeps_pure hm' (hfirst.mono fun n hn => by simp [allCaptured, hn])
    · exact (hrest hm' (hreach.owns hv)).imp fun _ _ _ _ h =>
        h.mono fun n hn => by simp [allCaptured, hn]

end

theorem keeps_bindAll {scope : Scope} {b : Bindings} (hm : m.Sound guard)
    (hb : ∀ e ∈ b, scope.Binds guard e.1 ∧ m.Owns guard e.2) :
    Keeps guard m (bindAll scope b) fun _ _ => True :=
  keeps_forM (P := fun m (e : String × Value) => scope.Binds guard e.1 ∧ m.Owns guard e.2)
    (fun hreach h => ⟨h.1, hreach.owns h.2⟩) (fun hm h => keeps_assignName hm h.1 h.2) hm hb

theorem keeps_evalDefaults (hs : s.Sound guard) (hm : m.Sound guard) (scope : Scope)
    (header : FunctionHeader) :
    Keeps guard m (evalDefaults s scope header) fun defaults m' =>
      ∀ d ∈ defaults, ∀ v, d = some v → m'.Owns guard v := by
  refine keeps_mapM (P := fun _ _ => True)
    (Q := fun m (d : Option Value) => ∀ v, d = some v → m.Owns guard v) (fun _ _ => trivial)
    (fun hreach h v hv => hreach.owns (h v hv)) (fun {m p} hm _ => ?_) hm fun _ _ => trivial
  cases p.default with
  | none => exact keeps_pure hm fun _ h => nomatch h
  | some e =>
    refine keeps_map ((keeps_eval hs scope e hm).imp ?_)
    rintro v m' - - hv w hw
    exact Option.some.inj hw ▸ hv

theorem keeps_decorate (hs : s.Sound guard) {decorators : List Value} {f : Value}
    (hm : m.Sound guard) (hd : ∀ d ∈ decorators, m.Owns guard d) (hf : m.Owns guard f) :
    Keeps guard m (decorate s decorators f) fun v m' => m'.Owns guard v := by
  unfold decorate
  rw [← List.foldlM_reverse]
  refine keeps_foldlM hm hf fun d hmem v m' hm' hreach hv => ?_
  exact hs.call hm' (hreach.owns (hd d (by simpa using hmem))) (by simpa using hv)

theorem keeps_define (hs : s.Sound guard) (hm : m.Sound guard) (scope : Scope)
    (header : FunctionHeader) (body : Block) :
    Keeps guard m (define s scope header body) fun v m' => m'.Owns guard v := by
  unfold define
  refine keeps_bind (keeps_evalDefaults hs hm scope header) ?_
  intro defaults m₁ hm₁ _ hdefaults
  refine keeps_bind (keeps_evalAll hs scope header.decorators hm₁) ?_
  intro decorators m₂ hm₂ hreach₂ hdecorators
  refine keeps_bind (keeps_changeHeap hm₂ (Heap.sound_addFunction hm₂.heap ?_)
    (Heap.grows_addFunction _ _)) ?_
  · exact fun v hv => hreach₂.owns (hdefaults _ hv v rfl)
  · rintro code m₃ hm₃ hreach₃ ⟨rfl, rfl⟩
    exact keeps_decorate hs hm₃ (fun d hd => hreach₃.owns (hdecorators d hd))
      (Heap.within_addFunction _ _)

theorem keeps_importModule (hs : s.Sound guard) (hm : m.Sound guard) {scope : Scope} {a : Alias}
    (hscope : scope.Binds guard a.boundName) :
    Keeps guard m (importModule s scope a) fun _ _ => True := by
  unfold importModule
  refine keeps_bind (hs.load a.name hm) ?_
  intro loaded m₁ hm₁ _ hloaded
  have found {m : Machine} (hm : m.Sound guard) {bound : LoadedModule}
      (hbound : guard.Spares bound.globals) :
      Keeps guard m (bind scope a.boundName bound.value) fun _ _ => True :=
    keeps_assignName hm hscope hbound
  split
  · exact found hm₁ hloaded
  · exact keeps_bind (hs.load a.boundName hm₁) fun _ _ hm₂ _ hbound => found hm₂ hbound

theorem keeps_currentPackage (hm : m.Sound guard) (scope : Scope) :
    Keeps guard m (currentPackage scope) fun _ _ => True := by
  unfold currentPackage
  refine keeps_getHeap_bind ?_
  split
  · exact keeps_pure hm trivial
  · exact keeps_pure hm trivial

theorem keeps_importName (hs : s.Sound guard) (hm : m.Sound guard) {scope : Scope}
    (loaded : LoadedModule) (name : String) {a : Alias}
    (hscope : scope.Binds guard a.boundName) :
    Keeps guard m (importName s scope loaded name a) fun _ _ => True := by
  have found {m : Machine} (hm : m.Sound guard) {v : Value} (hv : m.Owns guard v) :
      Keeps guard m (bind scope a.boundName v) fun _ _ => True :=
    keeps_assignName hm hscope hv
  unfold importName
  refine keeps_getHeap_bind ?_
  split
  · next v hv => exact found hm (hm.heap.frame_within hv)
  · refine keeps_get_bind ?_
    split
    · refine keeps_bind (hs.load _ hm) ?_
      intro inner m' hm' _ hinner
      exact found hm' hinner
    · exact keeps_fault_bind hm _

theorem keeps_raised (hm : m.Sound guard) (v : Value) :
    Keeps guard m (raised v) fun _ _ => True := by
  unfold raised
  split
  · exact keeps_pure hm trivial
  · exact keeps_pure hm trivial
  · exact keeps_fault hm _

/-! ## Statements -/

mutual

theorem keeps_exec (hs : s.Sound guard) (scope : Scope) (stmt : Stmt)
    (hscope : scope.BindsAll guard stmt.bound) {m : Machine} (hm : m.Sound guard) :
    Keeps guard m (exec s scope stmt) fun flow m' => flow.Owned guard m' := by
  match stmt with
  | .function header body =>
    rw [exec]
    refine keeps_bind (keeps_define hs hm scope header body) ?_
    intro v m₁ hm₁ _ hv
    exact keeps_bind (keeps_assignName hm₁ (hscope _ (by simp [Stmt.bound])) hv)
      fun _ _ hm₂ _ _ => keeps_pure hm₂ trivial
  | .branch condition thenBlock none _ =>
    have hthen {m : Machine} (hm : m.Sound guard) :=
      keeps_execBlock hs scope thenBlock (Scope.bindsAll_append.mp hscope).1 hm
    rw [exec]
    refine keeps_bind (keeps_eval hs scope condition hm) ?_
    intro c m₁ hm₁ _ _
    refine keeps_bind (keeps_isTrue hm₁ c) ?_
    intro b m₂ hm₂ _ _
    cases b with
    | true => exact hthen hm₂
    | false => exact keeps_pure hm₂ trivial
  | .branch condition thenBlock (some elseBlock) _ =>
    have hthen {m : Machine} (hm : m.Sound guard) :=
      keeps_execBlock hs scope thenBlock (Scope.bindsAll_append.mp hscope).1 hm
    have helse {m : Machine} (hm : m.Sound guard) :=
      keeps_execBlock hs scope elseBlock (Scope.bindsAll_append.mp hscope).2 hm
    rw [exec]
    refine keeps_bind (keeps_eval hs scope condition hm) ?_
    intro c m₁ hm₁ _ _
    refine keeps_bind (keeps_isTrue hm₁ c) ?_
    intro b m₂ hm₂ _ _
    cases b with
    | true => exact hthen hm₂
    | false => exact helse hm₂
  | .whileLoop condition body _ =>
    have hbody {m : Machine} (hm : m.Sound guard) := keeps_execBlock hs scope body hscope hm
    rw [exec]
    refine keeps_loopWhile (fun hm => ?_) hbody hm _
    exact keeps_bind (keeps_eval hs scope condition hm) fun v _ hm' _ _ => keeps_isTrue hm' v
  | .forLoop target iterable body _ =>
    obtain ⟨htarget, hblock⟩ := Scope.bindsAll_append.mp hscope
    have hbody {m : Machine} (hm : m.Sound guard) := keeps_execBlock hs scope body hblock hm
    rw [exec]
    refine keeps_bind (keeps_eval hs scope iterable hm) ?_
    intro v m₁ hm₁ _ _
    refine keeps_bind (keeps_iterate hm₁ v) ?_
    intro items m₂ hm₂ _ hitems
    refine keeps_loopOver (fun hm hv => ?_) hm₂ hitems
    exact keeps_bind (keeps_assign hs scope target htarget hm hv) fun _ _ hm' _ _ => hbody hm'
  | .matchOn subject cases _ =>
    have hcases {m : Machine} {v : Value} (hm : m.Sound guard) (hv : m.Owns guard v) :=
      keeps_execCases hs scope cases hscope hm hv
    rw [exec]
    exact keeps_bind (keeps_eval hs scope subject hm) fun _ _ hm' _ hv => hcases hm' hv
  | .returnValue none _ =>
    rw [exec]
    exact keeps_pure hm trivial
  | .returnValue (some e) _ =>
    rw [exec]
    exact keeps_bind (keeps_eval hs scope e hm) fun _ _ hm' _ hv => keeps_pure hm' hv
  | .raise none _ =>
    rw [exec]
    exact keeps_fault hm _
  | .raise (some e) _ =>
    rw [exec]
    refine keeps_bind (keeps_eval hs scope e hm) ?_
    intro v m₁ hm₁ _ _
    exact keeps_bind (keeps_raised hm₁ v) fun x _ hm₂ _ _ => keeps_raise hm₂ x
  | .assign target value _ =>
    rw [exec]
    refine keeps_bind (keeps_eval hs scope value hm) ?_
    intro v m₁ hm₁ _ hv
    exact keeps_bind (keeps_assign hs scope target hscope hm₁ hv)
      fun _ _ hm₂ _ _ => keeps_pure hm₂ trivial
  | .augment op target value _ =>
    rw [exec]
    refine keeps_bind (keeps_eval hs scope target hm) ?_
    intro current m₁ hm₁ _ _
    refine keeps_bind (keeps_eval hs scope value hm₁) ?_
    intro other m₂ hm₂ _ _
    refine keeps_bind (keeps_binary hm₂ op current other) ?_
    intro v m₃ hm₃ _ hv
    exact keeps_bind (keeps_assign hs scope target hscope hm₃ hv)
      fun _ _ hm₄ _ _ => keeps_pure hm₄ trivial
  | .importModules names _ =>
    rw [exec]
    refine keeps_bind (keeps_forM (P := fun _ (a : Alias) => scope.Binds guard a.boundName)
      (fun _ h => h) (fun hm h => keeps_importModule hs hm h) hm fun a ha => ?_)
      fun _ _ hm' _ _ => keeps_pure hm' trivial
    exact hscope _ (List.mem_map_of_mem ha)
  | .importNames level module names _ =>
    rw [exec]
    refine keeps_bind (keeps_currentPackage hm scope) ?_
    intro package m₁ hm₁ _ _
    refine keeps_bind (keeps_ofExcept hm₁ (Q := fun _ _ => True) fun _ _ => trivial) ?_
    intro name m₂ hm₂ _ _
    refine keeps_bind (hs.load name hm₂) ?_
    intro loaded m₃ hm₃ _ _
    refine keeps_bind (keeps_forM (P := fun _ (a : Alias) => scope.Binds guard a.boundName)
      (fun _ h => h) (fun hm h => keeps_importName hs hm loaded name h) hm₃ fun a ha => ?_)
      fun _ _ hm' _ _ => keeps_pure hm' trivial
    exact hscope _ (List.mem_map_of_mem ha)
  | .expr value =>
    rw [exec]
    exact keeps_bind (keeps_eval hs scope value hm) fun _ _ hm' _ _ => keeps_pure hm' trivial
  | .comment _ | .pass | .breakLoop | .continueLoop =>
    rw [exec]
    exact keeps_pure hm trivial

theorem keeps_execBlock (hs : s.Sound guard) (scope : Scope) (stmts : List Stmt)
    (hscope : scope.BindsAll guard (boundIn stmts)) {m : Machine} (hm : m.Sound guard) :
    Keeps guard m (execBlock s scope stmts) fun flow m' => flow.Owned guard m' := by
  match stmts with
  | [] =>
    rw [execBlock]
    exact keeps_pure hm trivial
  | stmt :: stmts =>
    obtain ⟨hfirst, hothers⟩ := Scope.bindsAll_append.mp hscope
    have hrest {m : Machine} (hm : m.Sound guard) := keeps_execBlock hs scope stmts hothers hm
    rw [execBlock]
    refine keeps_bind (keeps_exec hs scope stmt hfirst hm) ?_
    intro flow m' hm' _ hflow
    split
    · exact hrest hm'
    · exact keeps_pure hm' hflow

theorem keeps_execCases (hs : s.Sound guard) (scope : Scope) (cases : List Case)
    (hscope : scope.BindsAll guard (boundInCases cases)) {m : Machine} {subject : Value}
    (hm : m.Sound guard) (hv : m.Owns guard subject) :
    Keeps guard m (execCases s scope subject cases) fun flow m' => flow.Owned guard m' := by
  match cases with
  | [] =>
    rw [execCases]
    exact keeps_pure hm trivial
  | .on pattern body :: cases =>
    obtain ⟨hfirst, hothers⟩ := Scope.bindsAll_append.mp hscope
    obtain ⟨hpattern, hblock⟩ := Scope.bindsAll_append.mp hfirst
    have hbody {m : Machine} (hm : m.Sound guard) := keeps_execBlock hs scope body hblock hm
    have hrest {m : Machine} (hm : m.Sound guard) (hv : m.Owns guard subject) :=
      keeps_execCases hs scope cases hothers hm hv
    rw [execCases_cons]
    refine keeps_bind (keeps_accept? hs scope pattern hm hv) ?_
    intro found m' hm' hreach htaken
    split
    · next b =>
      have hb : ∀ e ∈ b, scope.Binds guard e.1 ∧ m'.Owns guard e.2 := fun e he =>
        ⟨hpattern _ (htaken b rfl e he).1, (htaken b rfl e he).2⟩
      exact keeps_bind (keeps_bindAll hm' hb) fun _ _ hm'' _ _ => hbody hm''
    · exact hrest hm' (hreach.owns hv)

end

end StagedScript
