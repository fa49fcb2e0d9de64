import StagedScript.Proofs.Evaluation.Acceptance
import StagedScript.Proofs.Machine.Regime.Builtin

/-!
# The evaluation of trees makes allowed changes

If calls and imports lead where they may, then so do expressions, and the
statements of a block whose definitions may be executed.
-/

namespace StagedScript

open Run Evaluation
open Syntax (Alias Block Case Entry Expr FormattedPart FunctionHeader Pattern Stmt)

variable {r : Regime} [r.Steady] {s : Services}

/-! ## Expressions -/

/-- Calls and imports lead where they may. -/
structure Evaluation.Services.Respect (s : Services) (r : Regime) : Prop where
  call : ∀ callee args, Respects r (s.call callee args)
  load : ∀ name, Respects r (s.load name)

theorem respects_nameValue (scope : Scope) (name : String) :
    Respects r (nameValue scope name) := by
  unfold nameValue
  refine respects_bind respects_getHeap fun heap => ?_
  split
  · simp
  · split <;> simp

mutual

theorem respects_eval (hs : s.Respect r) (scope : Scope) (e : Expr) :
    Respects r (eval s scope e) := by
  match e with
  | .name id _ =>
    rw [eval]
    exact respects_nameValue scope id
  | .constant value _ =>
    rw [eval]
    exact respects_pure _
  | .formatted parts _ =>
    rw [eval]
    exact respects_map _ (respects_evalParts hs scope parts)
  | .tuple items _ =>
    rw [eval]
    exact respects_bind (respects_evalAll hs scope items) fun _ => respects_newTuple _
  | .list items _ =>
    rw [eval]
    exact respects_bind (respects_evalAll hs scope items) fun _ => respects_newList _
  | .dict entries _ =>
    rw [eval]
    exact respects_bind (respects_evalEntries hs scope #[] entries) fun _ => respects_newDict _
  | .member target field _ =>
    rw [eval]
    exact respects_bind (respects_eval hs scope target) fun _ => respects_member _ _
  | .subscript target index _ =>
    have hindex := respects_eval hs scope index
    rw [eval]
    exact respects_bind (respects_eval hs scope target) fun _ =>
      respects_bind hindex fun _ => respects_subscript _ _
  | .call callee args _ =>
    have hargs := respects_evalAll hs scope args
    rw [eval]
    exact respects_bind (respects_eval hs scope callee) fun _ =>
      respects_bind hargs fun _ => hs.call _ _
  | .binary op left right _ =>
    have hright := respects_eval hs scope right
    rw [eval]
    refine respects_bind (respects_eval hs scope left) fun l => ?_
    split
    · simp [hright]
    · simp [hright]
    · exact respects_bind hright fun _ => respects_binary _ _ _
  | .unary op operand _ =>
    rw [eval]
    exact respects_bind (respects_eval hs scope operand) fun _ => respects_unary _ _
  | .conditional condition thenValue elseValue _ =>
    have hthen := respects_eval hs scope thenValue
    have helse := respects_eval hs scope elseValue
    rw [eval]
    refine respects_bind (respects_eval hs scope condition) fun c => ?_
    simp [hthen, helse]

theorem respects_evalAll (hs : s.Respect r) (scope : Scope) (es : List Expr) :
    Respects r (evalAll s scope es) := by
  match es with
  | [] =>
    rw [evalAll]
    exact respects_pure _
  | e :: es =>
    have hrest := respects_evalAll hs scope es
    rw [evalAll]
    exact respects_bind (respects_eval hs scope e) fun _ => respects_map _ hrest

theorem respects_evalEntries (hs : s.Respect r) (scope : Scope) (found : Array (Value × Value))
    (entries : List Entry) : Respects r (evalEntries s scope found entries) := by
  match entries with
  | [] =>
    rw [evalEntries]
    exact respects_pure _
  | .pair key value :: entries =>
    have hvalue := respects_eval hs scope value
    have hrest := fun found => respects_evalEntries hs scope found entries
    rw [evalEntries]
    refine respects_bind (respects_eval hs scope key) fun k => ?_
    refine respects_bind (respects_checkHashable k) fun _ => ?_
    refine respects_bind hvalue fun v => ?_
    exact respects_bind respects_getHeap fun heap => hrest _

theorem respects_evalParts (hs : s.Respect r) (scope : Scope) (parts : List FormattedPart) :
    Respects r (evalParts s scope parts) := by
  match parts with
  | [] =>
    rw [evalParts]
    exact respects_pure _
  | .literal text :: parts =>
    rw [evalParts]
    exact respects_map _ (respects_evalParts hs scope parts)
  | .field value written :: parts =>
    have hrest := respects_evalParts hs scope parts
    rw [evalParts]
    refine respects_bind (respects_eval hs scope value) fun v => ?_
    exact respects_bind (respects_view v) fun _ => respects_map _ hrest

end

/-! ## Assignments and patterns -/

mutual

theorem respects_assign (hs : s.Respect r) (scope : Scope) (target : Expr) (value : Value) :
    Respects r (assign s scope target value) := by
  have unpack (targets : List Expr)
      (hall : ∀ items : List Value, Respects r (assignAll s scope targets items)) :
      Respects r
        (do
          let items ← iterate value
          if items.length < targets.length then
            fault (.tooFewToUnpack targets.length items.length)
          else if targets.length < items.length then
            fault (.tooManyToUnpack targets.length)
          else
            assignAll s scope targets items) :=
    respects_bind (respects_iterate value) fun items =>
      respects_ite (respects_fault _) (respects_ite (respects_fault _) (hall items))
  match target with
  | .name id _ =>
    rw [assign]
    exact respects_assignName _ _ _
  | .tuple targets _ =>
    rw [assign]
    exact unpack targets fun items => respects_assignAll hs scope targets items
  | .list targets _ =>
    rw [assign]
    exact unpack targets fun items => respects_assignAll hs scope targets items
  | .subscript target index _ =>
    rw [assign]
    exact respects_bind (respects_eval hs scope target) fun _ =>
      respects_bind (respects_eval hs scope index) fun _ => respects_setItem _ _ _
  | .member target field _ =>
    rw [assign]
    refine respects_bind (respects_eval hs scope target) fun t => ?_
    split
    · exact respects_setName _ _ _
    · exact respects_fault _
  | .constant _ _ | .formatted _ _ | .dict _ _ | .call _ _ _ | .binary _ _ _ _ | .unary _ _ _
  | .conditional _ _ _ _ =>
    rw [assign]
    · exact respects_fault _
    all_goals simp

theorem respects_assignAll (hs : s.Respect r) (scope : Scope) (targets : List Expr)
    (values : List Value) : Respects r (assignAll s scope targets values) := by
  match targets, values with
  | [], _ =>
    rw [assignAll]
    · exact respects_pure _
    · simp
  | _ :: _, [] =>
    rw [assignAll]
    · exact respects_pure _
    · simp
  | target :: targets, value :: values =>
    rw [assignAll]
    exact respects_bind (respects_assign hs scope target value) fun _ =>
      respects_assignAll hs scope targets values

end

theorem respects_acceptItems? {scope : Scope} {items : List Value} {patterns : List Pattern}
    (hall : Respects r (acceptAll? s scope items patterns)) :
    Respects r (acceptItems? s scope items patterns) := by
  rw [acceptItems?]
  exact respects_ite hall (respects_pure _)

mutual

theorem respects_accept? (hs : s.Respect r) (scope : Scope) (subject : Value)
    (pattern : Pattern) : Respects r (accept? s scope subject pattern) := by
  match pattern with
  | .wildcard =>
    rw [accept?]
    exact respects_pure _
  | .capture name =>
    rw [accept?]
    exact respects_pure _
  | .value e =>
    rw [accept?]
    refine respects_bind (respects_eval hs scope e) fun v => ?_
    exact respects_bind (respects_equal _ _) fun b => by cases b <;> exact respects_pure _
  | .sequence patterns =>
    have hitems := fun items => respects_acceptItems? (respects_acceptAll? hs scope items patterns)
    rw [accept?]
    refine respects_bind respects_getHeap fun heap => ?_
    split
    · exact hitems _
    · exact hitems _
    · exact respects_pure _
  | .alternatives patterns =>
    rw [accept?]
    exact respects_acceptFirst? hs scope subject patterns

theorem respects_acceptAll? (hs : s.Respect r) (scope : Scope) (items : List Value)
    (patterns : List Pattern) : Respects r (acceptAll? s scope items patterns) := by
  match patterns with
  | [] =>
    rw [acceptAll?]
    exact respects_pure _
  | pattern :: patterns =>
    have hrest := fun items => respects_acceptAll? hs scope items patterns
    rw [acceptAll?]
    refine respects_bind (respects_accept? hs scope _ pattern) fun first => ?_
    split
    · exact respects_pure _
    · refine respects_bind (hrest _) fun others => ?_
      split
      · exact respects_pure _
      · exact respects_pure _

theorem respects_acceptFirst? (hs : s.Respect r) (scope : Scope) (subject : Value)
    (patterns : List Pattern) : Respects r (acceptFirst? s scope subject patterns) := by
  match patterns with
  | [] =>
    rw [acceptFirst?]
    exact respects_pure _
  | pattern :: patterns =>
    have hrest := respects_acceptFirst? hs scope subject patterns
    rw [acceptFirst?]
    refine respects_bind (respects_accept? hs scope subject pattern) fun first => ?_
    split
    · exact respects_pure _
    · exact hrest

end

theorem respects_bindAll (scope : Scope) (bindings : Bindings) :
    Respects r (bindAll scope bindings) :=
  respects_forM (fun _ => respects_assignName _ _ _) bindings

theorem respects_loopWhile {condition : Run Bool} {body : Run Flow}
    (hcondition : Respects r condition) (hbody : Respects r body) (n : Nat) :
    Respects r (loopWhile condition body n) := by
  induction n with
  | zero => exact respects_throw _
  | succ n ih =>
    rw [loopWhile]
    refine respects_bind hcondition fun b => respects_ite ?_ (respects_pure _)
    refine respects_bind hbody fun flow => ?_
    split
    · exact respects_pure _
    · exact respects_pure _
    · exact ih

theorem respects_loopOver {body : Value → Run Flow} (hbody : ∀ v, Respects r (body v))
    (items : List Value) : Respects r (loopOver body items) := by
  induction items with
  | nil => exact respects_pure _
  | cons item items ih =>
    rw [loopOver]
    refine respects_bind (hbody item) fun flow => ?_
    split
    · exact respects_pure _
    · exact respects_pure _
    · exact ih

theorem respects_evalDefaults (hs : s.Respect r) (scope : Scope) (header : FunctionHeader) :
    Respects r (evalDefaults s scope header) := by
  refine respects_mapM (fun p => ?_) _
  cases p.default with
  | none => exact respects_pure _
  | some e => exact respects_map _ (respects_eval hs scope e)

theorem respects_decorate (hs : s.Respect r) (decorators : List Value) (f : Value) :
    Respects r (decorate s decorators f) := by
  unfold decorate
  induction decorators with
  | nil => exact respects_pure _
  | cons decorator decorators ih =>
    rw [List.foldrM_cons]
    exact respects_bind ih fun _ => hs.call _ _

theorem respects_define (hs : s.Respect r) (scope : Scope) {header : FunctionHeader}
    {body : Block} (h : r.admits (header, body)) : Respects r (define s scope header body) := by
  unfold define
  refine respects_bind (respects_evalDefaults hs scope header) fun defaults => ?_
  refine respects_bind (respects_evalAll hs scope _) fun decorators => ?_
  refine respects_bind ?_ fun code => respects_decorate hs decorators _
  exact fun m hm => Regime.Steady.defined ⟨header, body, defaults, scope⟩ hm h

theorem respects_importModule (hs : s.Respect r) (scope : Scope) (a : Alias) :
    Respects r (importModule s scope a) := by
  unfold importModule
  refine respects_bind (hs.load _) fun loaded => ?_
  split
  · exact respects_assignName _ _ _
  · exact respects_bind (hs.load _) fun _ => respects_assignName _ _ _

theorem respects_currentPackage (scope : Scope) : Respects r (currentPackage scope) := by
  unfold currentPackage
  refine respects_bind respects_getHeap fun heap => ?_
  split
  · exact respects_pure _
  · exact respects_pure _

theorem respects_importName (hs : s.Respect r) (scope : Scope) (loaded : LoadedModule)
    (name : String) (a : Alias) : Respects r (importName s scope loaded name a) := by
  unfold importName
  refine respects_bind respects_getHeap fun heap => ?_
  split
  · exact respects_assignName _ _ _
  · refine respects_bind respects_get fun machine => ?_
    dsimp only
    split
    · exact respects_bind (hs.load _) fun _ => respects_assignName _ _ _
    · exact respects_bind (respects_fault _) fun _ => respects_assignName _ _ _

theorem respects_raised (v : Value) : Respects r (raised v) := by
  unfold raised
  split <;> simp

/-! ## Statements -/

mutual

theorem respects_exec (hs : s.Respect r) (scope : Scope) (stmt : Stmt)
    (hdefs : ∀ d ∈ stmt.definitions, r.admits d) : Respects r (exec s scope stmt) := by
  match stmt with
  | .function header body =>
    rw [exec]
    refine respects_bind (respects_define hs scope (hdefs _ (by simp [Stmt.definitions])))
      fun _ => ?_
    exact respects_bind (respects_assignName _ _ _) fun _ => respects_pure _
  | .branch condition thenBlock none _ =>
    have hthen := respects_execBlock hs scope thenBlock fun d hd =>
      hdefs d (by simp [Stmt.definitions, hd])
    rw [exec]
    refine respects_bind (respects_eval hs scope condition) fun c => ?_
    exact respects_bind (respects_isTrue c) fun b => respects_ite hthen (respects_pure _)
  | .branch condition thenBlock (some elseBlock) _ =>
    have hthen := respects_execBlock hs scope thenBlock fun d hd =>
      hdefs d (by simp [Stmt.definitions, hd])
    have helse := respects_execBlock hs scope elseBlock fun d hd =>
      hdefs d (by simp [Stmt.definitions, hd])
    rw [exec]
    refine respects_bind (respects_eval hs scope condition) fun c => ?_
    exact respects_bind (respects_isTrue c) fun b => respects_ite hthen helse
  | .whileLoop condition body _ =>
    rw [exec]
    exact respects_loopWhile
      (respects_bind (respects_eval hs scope condition) fun c => respects_isTrue c)
      (respects_execBlock hs scope body hdefs) _
  | .forLoop target iterable body _ =>
    have hbody := respects_execBlock hs scope body hdefs
    rw [exec]
    refine respects_bind (respects_eval hs scope iterable) fun v => ?_
    refine respects_bind (respects_iterate v) fun items => respects_loopOver (fun item => ?_) _
    exact respects_bind (respects_assign hs scope target item) fun _ => hbody
  | .matchOn subject cases _ =>
    have hcases := fun v => respects_execCases hs scope v cases hdefs
    rw [exec]
    exact respects_bind (respects_eval hs scope subject) fun v => hcases v
  | .returnValue none _ =>
    rw [exec]
    exact respects_pure _
  | .returnValue (some value) _ =>
    rw [exec]
    exact respects_map _ (respects_eval hs scope value)
  | .raise none _ =>
    rw [exec]
    exact respects_fault _
  | .raise (some exception) _ =>
    rw [exec]
    refine respects_bind (respects_eval hs scope exception) fun v => ?_
    exact respects_bind (respects_raised v) fun e => respects_raise e
  | .assign target value _ =>
    rw [exec]
    refine respects_bind (respects_eval hs scope value) fun v => ?_
    exact respects_bind (respects_assign hs scope target v) fun _ => respects_pure _
  | .augment op target value _ =>
    rw [exec]
    refine respects_bind (respects_eval hs scope target) fun current => ?_
    refine respects_bind (respects_eval hs scope value) fun other => ?_
    refine respects_bind (respects_binary op current other) fun v => ?_
    exact respects_bind (respects_assign hs scope target v) fun _ => respects_pure _
  | .importModules names _ =>
    rw [exec]
    exact respects_bind (respects_forM (respects_importModule hs scope) names)
      fun _ => respects_pure _
  | .importNames level module names _ =>
    rw [exec]
    refine respects_bind (respects_currentPackage scope) fun package => ?_
    refine respects_bind (respects_ofExcept _) fun name => ?_
    refine respects_bind (hs.load name) fun loaded => ?_
    exact respects_bind (respects_forM (respects_importName hs scope loaded name) names)
      fun _ => respects_pure _
  | .expr value =>
    rw [exec]
    exact respects_bind (respects_eval hs scope value) fun _ => respects_pure _
  | .comment _ | .pass | .breakLoop | .continueLoop =>
    rw [exec]
    exact respects_pure _

theorem respects_execBlock (hs : s.Respect r) (scope : Scope) (body : List Stmt)
    (hdefs : r.AdmitsAll body) : Respects r (execBlock s scope body) := by
  match body with
  | [] =>
    rw [execBlock]
    exact respects_pure _
  | stmt :: stmts =>
    obtain ⟨hfirst, hothers⟩ := List.forall_mem_append.mp hdefs
    have hrest := respects_execBlock hs scope stmts hothers
    rw [execBlock]
    refine respects_bind (respects_exec hs scope stmt hfirst) fun flow => ?_
    split
    · exact hrest
    · exact respects_pure _

theorem respects_execCases (hs : s.Respect r) (scope : Scope) (subject : Value)
    (cases : List Case) (hdefs : ∀ d ∈ Syntax.definitionsInCases cases, r.admits d) :
    Respects r (execCases s scope subject cases) := by
  match cases with
  | [] =>
    rw [execCases]
    exact respects_pure _
  | .on pattern body :: cases =>
    obtain ⟨hfirst, hothers⟩ := List.forall_mem_append.mp hdefs
    have hbody := respects_execBlock hs scope body hfirst
    have hrest := respects_execCases hs scope subject cases hothers
    rw [execCases_cons]
    refine respects_bind (respects_accept? hs scope subject pattern) fun bindings => ?_
    split
    · exact respects_bind (respects_bindAll scope _) fun _ => hbody
    · exact hrest

end

end StagedScript
