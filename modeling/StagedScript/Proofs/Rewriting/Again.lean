import StagedScript.Proofs.Outcome
import StagedScript.Rewriting.Module

/-!
# Rewriting a rewritten module

A rewritten module imports no marker, decorates no function with one, and has
a statement in each of its blocks.  Rewriting finds nothing to do in such a
module, whatever the results and the strategy are.
-/

namespace StagedScript.Rewriting

open Staging (Results)
open Syntax (Alias Block Case Expr FunctionHeader Param Stmt)

/-! ## Modules without markers -/

section Unmarked

variable (markers : MarkerNames)

mutual

/-- No marker is imported in the statement or decorates a function in it, and no block in it has
nothing but comments. -/
def IsUnmarked : Stmt → Prop
  | .function header body =>
    (∀ decorator ∈ header.decorators, markers.classify decorator = .other) ∧
      hasOnlyComments body = false ∧ AreUnmarked body
  | .branch _ thenBlock none _ => hasOnlyComments thenBlock = false ∧ AreUnmarked thenBlock
  | .branch _ thenBlock (some elseBlock) _ =>
    (hasOnlyComments thenBlock = false ∧ AreUnmarked thenBlock) ∧
      hasOnlyComments elseBlock = false ∧ AreUnmarked elseBlock
  | .whileLoop _ body _ | .forLoop _ _ body _ => hasOnlyComments body = false ∧ AreUnmarked body
  | .matchOn _ cases _ => CasesUnmarked cases
  | .importModules names _ => names ≠ [] ∧ ∀ a ∈ names, a.name ≠ markerModule
  | .importNames level module _ _ => isMarkerImport level module = false
  | .returnValue _ _ | .raise _ _ | .assign _ _ _ | .augment _ _ _ _ | .expr _ | .comment _
  | .pass | .breakLoop | .continueLoop => True

def AreUnmarked : List Stmt → Prop
  | [] => True
  | stmt :: stmts => IsUnmarked stmt ∧ AreUnmarked stmts

def CasesUnmarked : List Case → Prop
  | [] => True
  | .on _ body :: cases =>
    (hasOnlyComments body = false ∧ AreUnmarked body) ∧ CasesUnmarked cases

end

end Unmarked

variable {markers markers' : MarkerNames}

theorem areUnmarked_iff {stmts : List Stmt} :
    AreUnmarked markers stmts ↔ ∀ stmt ∈ stmts, IsUnmarked markers stmt := by
  induction stmts with
  | nil => simp [AreUnmarked]
  | cons stmt stmts ih => simp [AreUnmarked, ih]

theorem areUnmarked_append {stmts stmts' : List Stmt} :
    AreUnmarked markers (stmts ++ stmts') ↔
      AreUnmarked markers stmts ∧ AreUnmarked markers stmts' := by
  simp [areUnmarked_iff, or_imp, forall_and]

theorem AreUnmarked.sublist {stmts stmts' : List Stmt} (h : AreUnmarked markers stmts)
    (hsublist : stmts'.Sublist stmts) : AreUnmarked markers stmts' :=
  areUnmarked_iff.mpr fun stmt hmem => areUnmarked_iff.mp h stmt (hsublist.subset hmem)

theorem casesUnmarked_iff {cases : List Case} :
    CasesUnmarked markers cases ↔ ∀ pattern body, .on pattern body ∈ cases →
      hasOnlyComments body = false ∧ AreUnmarked markers body := by
  induction cases with
  | nil => simp [CasesUnmarked]
  | cons c cases ih =>
    obtain ⟨pattern, body⟩ := c
    simp only [CasesUnmarked, ih, List.mem_cons, Case.on.injEq]
    constructor
    · rintro ⟨hbody, hcases⟩ pattern' body' (⟨rfl, rfl⟩ | hmem)
      · exact hbody
      · exact hcases pattern' body' hmem
    · exact fun h => ⟨h pattern body (.inl ⟨rfl, rfl⟩), fun p b hmem => h p b (.inr hmem)⟩

theorem hasOnlyComments_withStatement (body : Block) :
    hasOnlyComments (withStatement body) = false := by
  unfold withStatement
  split
  · simp [hasOnlyComments]
  · next h => simpa using h

theorem withStatement_of_hasStatement {body : Block} (h : hasOnlyComments body = false) :
    withStatement body = body := by
  simp [withStatement, h]

theorem areUnmarked_withStatement {body : Block} (h : AreUnmarked markers body) :
    AreUnmarked markers (withStatement body) := by
  unfold withStatement
  split
  · exact areUnmarked_append.mpr ⟨h, trivial, trivial⟩
  · exact h

/-- A block that was given a statement if it had none. -/
theorem unmarked_withStatement {body : Block} (h : AreUnmarked markers body) :
    hasOnlyComments (withStatement body) = false ∧ AreUnmarked markers (withStatement body) :=
  ⟨hasOnlyComments_withStatement body, areUnmarked_withStatement h⟩

mutual

/-- What is unmarked stays so if fewer decorators count as markers. -/
theorem IsUnmarked.mono
    (hother : ∀ e, markers.classify e = .other → markers'.classify e = .other) {stmt : Stmt}
    (h : IsUnmarked markers stmt) : IsUnmarked markers' stmt := by
  match stmt with
  | .function header body =>
    exact ⟨fun e he => hother e (h.1 e he), h.2.1, AreUnmarked.mono hother h.2.2⟩
  | .branch _ thenBlock none _ => exact ⟨h.1, AreUnmarked.mono hother h.2⟩
  | .branch _ thenBlock (some elseBlock) _ =>
    exact ⟨⟨h.1.1, AreUnmarked.mono hother h.1.2⟩, h.2.1, AreUnmarked.mono hother h.2.2⟩
  | .whileLoop _ body _ | .forLoop _ _ body _ => exact ⟨h.1, AreUnmarked.mono hother h.2⟩
  | .matchOn _ cases _ => exact CasesUnmarked.mono hother h
  | .importModules _ _ | .importNames _ _ _ _ => exact h
  | .returnValue _ _ | .raise _ _ | .assign _ _ _ | .augment _ _ _ _ | .expr _ | .comment _
  | .pass | .breakLoop | .continueLoop => trivial

theorem AreUnmarked.mono
    (hother : ∀ e, markers.classify e = .other → markers'.classify e = .other)
    {stmts : List Stmt} (h : AreUnmarked markers stmts) : AreUnmarked markers' stmts := by
  match stmts with
  | [] => trivial
  | stmt :: stmts => exact ⟨IsUnmarked.mono hother h.1, AreUnmarked.mono hother h.2⟩

theorem CasesUnmarked.mono
    (hother : ∀ e, markers.classify e = .other → markers'.classify e = .other)
    {cases : List Case} (h : CasesUnmarked markers cases) : CasesUnmarked markers' cases := by
  match cases with
  | [] => trivial
  | .on _ body :: cases =>
    exact ⟨⟨h.1.1, AreUnmarked.mono hother h.1.2⟩, CasesUnmarked.mono hother h.2⟩

end

/-! ## Names of markers -/

namespace MarkerNames

theorem mem_addImported {names : MarkerNames} (h : markerModule ∈ names.comptime) (a : Alias) :
    markerModule ∈ (names.addImported a).comptime := by
  unfold addImported
  split
  · exact h
  · exact List.mem_cons_of_mem _ h

theorem mem_addStmt {names : MarkerNames} (h : markerModule ∈ names.comptime) (stmt : Stmt) :
    markerModule ∈ (names.addStmt stmt).comptime := by
  unfold addStmt
  split
  · exact List.mem_append_right _ h
  · split
    · exact List.foldlRecOn (motive := fun names : MarkerNames => markerModule ∈ names.comptime)
        _ _ h fun _ hnames a _ => mem_addImported hnames a
    · exact h
  · exact h

/-- The name of the module of the markers always stands for a marker. -/
theorem mem_ofBlock (body : Block) : markerModule ∈ (ofBlock body).comptime :=
  List.foldlRecOn (motive := fun names : MarkerNames => markerModule ∈ names.comptime) body addStmt
    List.mem_cons_self fun _ hnames stmt _ => mem_addStmt hnames stmt

theorem addStmt_of_isUnmarked {stmt : Stmt} (h : IsUnmarked markers stmt) (names : MarkerNames) :
    names.addStmt stmt = names := by
  match stmt with
  | .importModules aliases _ =>
    have hnone : aliases.filter (·.name = markerModule) = [] := by
      simpa using h.2
    rw [addStmt, hnone]
    rfl
  | .importNames level module aliases _ =>
    rw [addStmt, show isMarkerImport level module = false from h]
    rfl
  | .function _ _ | .branch _ _ _ _ | .whileLoop _ _ _ | .forLoop _ _ _ _ | .matchOn _ _ _
  | .returnValue _ _ | .raise _ _ | .assign _ _ _ | .augment _ _ _ _ | .expr _ | .comment _
  | .pass | .breakLoop | .continueLoop => rfl

/-- A module without markers has a name for their module only. -/
theorem ofBlock_of_areUnmarked {body : Block} (h : AreUnmarked markers body) :
    ofBlock body = ⟨[markerModule], []⟩ :=
  List.foldlRecOn (motive := fun names : MarkerNames => names = ⟨[markerModule], []⟩) body addStmt
    rfl fun names hnames stmt hmem =>
      (addStmt_of_isUnmarked (areUnmarked_iff.mp h stmt hmem) names).trans hnames

theorem kindOf_of_mem {names : MarkerNames} (hmem : markerModule ∈ names.comptime) {e : Expr}
    (h : names.kindOf e = .other) : kindOf ⟨[markerModule], []⟩ e = .other := by
  -- An expression that starts with the module's name denotes a marker.
  have hne {id : String} (hid : names.comptime.contains id = false) : id ≠ markerModule := by
    rintro rfl
    rw [List.contains_iff_mem.mpr hmem] at hid
    cases hid
  unfold kindOf at h
  split at h
  · next id _ =>
    split at h
    · cases h
    · next hid => simp [kindOf, hne (Bool.eq_false_iff.mpr hid)]
  · next id field _ =>
    split at h
    · split at h <;> cases h
    · next hid => simp [kindOf, hne (Bool.eq_false_iff.mpr hid)]
  · next hname hmember =>
    unfold kindOf
    split
    · exact (hname _ _ rfl).elim
    · exact (hmember _ _ _ _ rfl).elim
    · rfl

theorem classify_of_mem {names : MarkerNames} (hmem : markerModule ∈ names.comptime) {e : Expr}
    (h : names.classify e = .other) : classify ⟨[markerModule], []⟩ e = .other := by
  unfold classify at h ⊢
  split at h
  · exact kindOf_of_mem hmem h
  · exact kindOf_of_mem hmem h

end MarkerNames

mutual

/-- Rewriting finds nothing to do in a statement without markers. -/
theorem rewriteStmt_of_isUnmarked (plan : Plan) {stmt : Stmt}
    (h : IsUnmarked plan.markers stmt) : rewriteStmt plan stmt = pure [stmt] := by
  match stmt with
  | .function header body =>
    obtain ⟨hdecorators, hbody, hstmts⟩ := h
    have hbare : withoutMarkers plan.markers header = header := by
      have hall : header.decorators.filter (plan.markers.classify · = .other) =
          header.decorators := by simpa using hdecorators
      rw [withoutMarkers, hall]
    have hmarked : isMarked plan.markers header = false := by
      simp only [isMarked, List.any_eq_false, decide_eq_true_eq]
      intro decorator hmem
      simp [hdecorators decorator hmem]
    rw [rewriteStmt, rewriteStmts_of_areUnmarked plan hstmts]
    simp [hbare, hmarked, withStatement_of_hasStatement hbody]
  | .branch _ thenBlock none _ =>
    rw [rewriteStmt, rewriteStmts_of_areUnmarked plan h.2]
    simp [withStatement_of_hasStatement h.1]
  | .branch _ thenBlock (some elseBlock) _ =>
    rw [rewriteStmt, rewriteStmts_of_areUnmarked plan h.1.2]
    simp [rewriteStmts_of_areUnmarked plan h.2.2, withStatement_of_hasStatement h.1.1,
      withStatement_of_hasStatement h.2.1]
  | .whileLoop _ body _ | .forLoop _ _ body _ =>
    rw [rewriteStmt, rewriteStmts_of_areUnmarked plan h.2]
    simp [withStatement_of_hasStatement h.1]
  | .matchOn _ cases _ =>
    rw [rewriteStmt, rewriteCases_of_casesUnmarked plan h]
    simp
  | .importModules names _ =>
    have hall : names.filter (·.name ≠ markerModule) = names := by simpa using h.2
    rw [rewriteStmt, hall]
    simp [h.1]
  | .importNames level module _ _ =>
    rw [rewriteStmt, show isMarkerImport level module = false from h]
    rfl
  | .returnValue _ _ | .raise _ _ | .assign _ _ _ | .augment _ _ _ _ | .expr _ | .comment _
  | .pass | .breakLoop | .continueLoop => rw [rewriteStmt] <;> exact nofun

theorem rewriteStmts_of_areUnmarked (plan : Plan) {stmts : List Stmt}
    (h : AreUnmarked plan.markers stmts) : rewriteStmts plan stmts = pure stmts := by
  match stmts with
  | [] => rw [rewriteStmts]
  | stmt :: stmts =>
    rw [rewriteStmts, rewriteStmt_of_isUnmarked plan h.1, rewriteStmts_of_areUnmarked plan h.2]
    simp

theorem rewriteCases_of_casesUnmarked (plan : Plan) {cases : List Case}
    (h : CasesUnmarked plan.markers cases) : rewriteCases plan cases = pure cases := by
  match cases with
  | [] => rw [rewriteCases]
  | .on _ body :: cases =>
    rw [rewriteCases, rewriteStmts_of_areUnmarked plan h.1.2,
      rewriteCases_of_casesUnmarked plan h.2]
    simp [withStatement_of_hasStatement h.1.1]

end

/-- The condition holds of the result of every run of the action. -/
def Yields {α : Type} (action : Rewrite α) (p : α → Prop) : Prop :=
  ∀ t a t', action.run t = .ok (a, t') → p a

section Yields

variable {α β : Type} {p : α → Prop} {q : β → Prop}

theorem yields_pure {a : α} (h : p a) : Yields (pure a) p := by
  intro t a' t' hrun
  cases hrun
  exact h

theorem yields_throw (failure : Failure) : Yields (throw failure) p :=
  nofun

theorem yields_lift {x : Except Failure α} (h : ∀ a, x = .ok a → p a) :
    Yields (monadLift x) p := by
  intro t a t' hrun
  match x, hrun with
  | .ok _, rfl => exact h a rfl

theorem yields_bind {action : Rewrite α} {next : α → Rewrite β} (h : Yields action p)
    (hnext : ∀ a, p a → Yields (next a) q) : Yields (action >>= next) q := by
  intro t b t' hrun
  rw [StateT.run_bind] at hrun
  cases haction : action.run t with
  | error failure =>
    rw [haction] at hrun
    cases hrun
  | ok result =>
    rw [haction] at hrun
    exact hnext result.1 (h t result.1 result.2 haction) result.2 b t' hrun

theorem yields_of_forall {action : Rewrite α} (h : ∀ a, p a) : Yields action p :=
  fun _ a _ _ => h a

end Yields

theorem body_of_variantCase {function : String} {params : List String} {v : Variant} {c : Case}
    (h : variantCase function params v = .ok c) :
    ∃ pattern value, c = .on pattern [returning value] := by
  obtain ⟨pattern, -, h⟩ := exists_of_bind_eq_ok h
  obtain ⟨value, -, h⟩ := exists_of_bind_eq_ok h
  cases h
  exact ⟨pattern, value, rfl⟩

theorem unmarked_matchingBody {function : String} {params : List String}
    {variants : List Variant} {body : Block}
    (h : matchingBody function params variants = .ok body) :
    hasOnlyComments body = false ∧ AreUnmarked markers body := by
  obtain ⟨cases, hcases, h⟩ := exists_of_bind_eq_ok h
  cases h
  refine ⟨rfl, ?_, trivial⟩
  rw [IsUnmarked, casesUnmarked_iff]
  intro pattern body hmem
  rcases List.mem_append.mp hmem with hmem | hmem
  · obtain ⟨v, -, hcase⟩ := of_mem_of_mapM hcases hmem
    obtain ⟨pattern, value, ⟨⟩⟩ := body_of_variantCase hcase
    exact ⟨rfl, trivial, trivial⟩
  · cases List.mem_singleton.mp hmem
    exact ⟨rfl, trivial, trivial⟩

theorem unmarked_lookupBody {function : String} {params : List String}
    {variants : List Variant} {body : Block}
    (h : lookupBody function params variants = .ok body) :
    hasOnlyComments body = false ∧ AreUnmarked markers body := by
  obtain ⟨entries, -, h⟩ := exists_of_bind_eq_ok h
  cases h
  exact ⟨rfl, trivial, trivial⟩

/-- What a function is filled in with has no markers, and its decorators are kept. -/
theorem yields_fillIn (markers : MarkerNames) (plan : Plan) (header : FunctionHeader) :
    Yields (fillIn plan header) fun filled => filled.1.decorators = header.decorators ∧
      hasOnlyComments filled.2 = false ∧ AreUnmarked markers filled.2 := by
  unfold fillIn
  dsimp only
  split
  · split
    · next value _ =>
      refine yields_bind (p := fun _ => True) (yields_of_forall fun _ => trivial) fun value _ => ?_
      exact yields_pure ⟨rfl, rfl, trivial, trivial⟩
    · exact yields_throw _
  · refine yields_bind (p := fun _ => True) (yields_of_forall fun _ => trivial) fun params _ => ?_
    refine yields_bind (yields_lift (p := fun body : Block =>
      hasOnlyComments body = false ∧ AreUnmarked markers body) fun body hbody => ?_) fun body hbody =>
        yields_pure ⟨rfl, hbody⟩
    cases hstrategy : plan.strategy with
    | matching =>
      rw [hstrategy] at hbody
      exact unmarked_matchingBody hbody
    | lookup =>
      rw [hstrategy] at hbody
      exact unmarked_lookupBody hbody

/-- A function with a generated body has no markers if none is left among its decorators. -/
theorem yields_rewriteMarked (plan : Plan) {header : FunctionHeader} (body : Block)
    (hother : ∀ e ∈ header.decorators, markers.classify e = .other) :
    Yields (rewriteMarked plan header body) (IsUnmarked markers) := by
  unfold rewriteMarked
  refine yields_bind (yields_fillIn markers plan header) fun filled hfilled => ?_
  obtain ⟨hdecorators, hbody, hstmts⟩ := hfilled
  refine yields_bind (p := fun _ => True) (yields_of_forall fun _ => trivial) fun _ _ => ?_
  refine yields_pure ⟨?_, ?_, ?_⟩
  · rw [hdecorators]
    exact hother
  · unfold hasOnlyComments at hbody ⊢
    rw [List.all_append, hbody, Bool.and_false]
  · refine areUnmarked_append.mpr ⟨?_, hstmts⟩
    unfold docstringStmts
    split
    · exact ⟨trivial, trivial⟩
    · trivial

/-! ## Rewritten statements -/

theorem classify_of_mem_withoutMarkers {header : FunctionHeader} {e : Expr}
    (h : e ∈ (withoutMarkers markers header).decorators) : markers.classify e = .other :=
  of_decide_eq_true (List.mem_filter.mp h).2

mutual

/-- What a statement becomes has no markers. -/
theorem yields_rewriteStmt (plan : Plan) (stmt : Stmt) :
    Yields (rewriteStmt plan stmt) (AreUnmarked plan.markers) := by
  match stmt with
  | .function header body =>
    rw [rewriteStmt]
    split
    · exact yields_bind (yields_rewriteMarked plan body fun _ => classify_of_mem_withoutMarkers)
        fun _ h => yields_pure ⟨h, trivial⟩
    · exact yields_bind (yields_rewriteStmts plan body) fun _ h => yields_pure
        ⟨⟨fun _ => classify_of_mem_withoutMarkers, unmarked_withStatement h⟩, trivial⟩
  | .branch _ thenBlock none _ =>
    rw [rewriteStmt]
    exact yields_bind (yields_rewriteStmts plan thenBlock) fun _ h =>
      yields_pure ⟨unmarked_withStatement h, trivial⟩
  | .branch _ thenBlock (some elseBlock) _ =>
    rw [rewriteStmt]
    exact yields_bind (yields_rewriteStmts plan thenBlock) fun _ h =>
      yields_bind (yields_rewriteStmts plan elseBlock) fun _ h' =>
        yields_pure ⟨⟨unmarked_withStatement h, unmarked_withStatement h'⟩, trivial⟩
  | .whileLoop _ body _ | .forLoop _ _ body _ =>
    rw [rewriteStmt]
    exact yields_bind (yields_rewriteStmts plan body) fun _ h =>
      yields_pure ⟨unmarked_withStatement h, trivial⟩
  | .matchOn _ cases _ =>
    rw [rewriteStmt]
    exact yields_bind (yields_rewriteCases plan cases) fun _ h => yields_pure ⟨h, trivial⟩
  | .importModules names _ =>
    rw [rewriteStmt]
    split
    · exact yields_pure trivial
    · next hsome =>
      refine yields_pure ⟨⟨by simpa using hsome, fun a ha => ?_⟩, trivial⟩
      exact of_decide_eq_true (List.mem_filter.mp ha).2
  | .importNames level module _ _ =>
    rw [rewriteStmt]
    split
    · exact yields_pure trivial
    · next hother => exact yields_pure ⟨Bool.eq_false_iff.mpr hother, trivial⟩
  | .returnValue _ _ | .raise _ _ | .assign _ _ _ | .augment _ _ _ _ | .expr _ | .comment _
  | .pass | .breakLoop | .continueLoop =>
    rw [rewriteStmt]
    · exact yields_pure ⟨trivial, trivial⟩
    all_goals exact nofun

/-- What statements become has no markers. -/
theorem yields_rewriteStmts (plan : Plan) (stmts : List Stmt) :
    Yields (rewriteStmts plan stmts) (AreUnmarked plan.markers) := by
  match stmts with
  | [] =>
    rw [rewriteStmts]
    exact yields_pure trivial
  | stmt :: stmts =>
    rw [rewriteStmts]
    exact yields_bind (yields_rewriteStmt plan stmt) fun _ hfirst =>
      yields_bind (yields_rewriteStmts plan stmts) fun _ hrest =>
        yields_pure (areUnmarked_append.mpr ⟨hfirst, hrest⟩)

/-- What the cases of a match statement become has no markers. -/
theorem yields_rewriteCases (plan : Plan) (cases : List Case) :
    Yields (rewriteCases plan cases) (CasesUnmarked plan.markers) := by
  match cases with
  | [] =>
    rw [rewriteCases]
    exact yields_pure trivial
  | .on _ body :: cases =>
    rw [rewriteCases]
    exact yields_bind (yields_rewriteStmts plan body) fun _ h =>
      yields_bind (yields_rewriteCases plan cases) fun _ hcases =>
        yields_pure ⟨unmarked_withStatement h, hcases⟩

end

/-! ## Rewritten modules -/

theorem areUnmarked_addTypingImport {body : Block} (h : AreUnmarked markers body) :
    AreUnmarked markers (addTypingImport body) := by
  have himport : IsUnmarked markers typingImport := ⟨nofun, by simp [markerModule]⟩
  unfold addTypingImport
  split
  next documentation rest hsplit =>
    have hparts : AreUnmarked markers documentation ∧ AreUnmarked markers rest := by
      split at hsplit
      · cases hsplit
        exact ⟨h.sublist (List.take_sublist ..), h.sublist (List.drop_sublist ..)⟩
      · cases hsplit
        exact ⟨trivial, h⟩
    refine areUnmarked_append.mpr ⟨areUnmarked_append.mpr ⟨hparts.1, ?_⟩, himport, ?_⟩
    · exact hparts.2.sublist (List.takeWhile_sublist _)
    · exact hparts.2.sublist (List.dropWhile_sublist _)

theorem areUnmarked_of_rewriteModule {results : Results Datum} {strategy : Strategy}
    {body : Block} {digest : Digest} {r : Rewritten}
    (h : rewriteModule results strategy body digest = .ok r) :
    AreUnmarked (.ofBlock body) r.body := by
  unfold rewriteModule at h
  dsimp only at h
  cases hrun : (rewriteStmts ⟨.ofBlock body, results, strategy, digest⟩ body).run {} with
  | error failure =>
    rw [hrun] at h
    cases h
  | ok result =>
    rw [hrun] at h
    cases h
    have hstmts : AreUnmarked (.ofBlock body) result.1 :=
      yields_rewriteStmts _ body {} result.1 result.2 hrun
    dsimp only
    split
    · exact areUnmarked_addTypingImport hstmts
    · exact hstmts

theorem rewriteModule_of_areUnmarked {body : Block} (h : AreUnmarked (.ofBlock body) body)
    (results : Results Datum) (strategy : Strategy) (digest : Digest) :
    rewriteModule results strategy body digest = .ok ⟨body, []⟩ := by
  unfold rewriteModule
  dsimp only
  rw [rewriteStmts_of_areUnmarked _ h]
  rfl

/-- Rewriting a module that was rewritten, with any results and strategy, succeeds, changes nothing
and finds no function to rewrite.  There is no marker in a rewritten module: it imports none, and
no decorator in it is one by the names that the module itself gives to them. -/
theorem rewritten_module_is_final {results : Results Datum} {strategy : Strategy} {body : Block}
    {digest : Digest} {r : Rewritten} (h : rewriteModule results strategy body digest = .ok r) :
    AreUnmarked (.ofBlock r.body) r.body ∧
      ∀ results' strategy' digest',
        rewriteModule results' strategy' r.body digest' = .ok ⟨r.body, []⟩ := by
  have hbefore : AreUnmarked (.ofBlock body) r.body := areUnmarked_of_rewriteModule h
  have hafter : AreUnmarked (.ofBlock r.body) r.body := by
    rw [MarkerNames.ofBlock_of_areUnmarked hbefore]
    exact hbefore.mono fun _ => MarkerNames.classify_of_mem (MarkerNames.mem_ofBlock body)
  exact ⟨hafter, rewriteModule_of_areUnmarked hafter⟩

/-- A module that registers a function and imports the marker once more inside of a branch. -/
def doubling : Block := [
  .importNames 0 (some "comptime") [⟨"comptime", none⟩] .synthetic,
  .branch (.literal (.bool true)) [.importModules [⟨"comptime", some "c"⟩] .synthetic] none
    .synthetic,
  .function
    { name := "double"
      decorators := [.callOf (.named "comptime") [.literal (.int 2)]]
      params := [⟨"x", none, none, .synthetic⟩]
      returnType := none
      span := .synthetic }
    [returning (.binary .add (.named "x") (.named "x") .synthetic)]]

theorem rewritten_module_is_final_doubling :
    ∃ r, rewriteModule [(.variant "double" (.single (.constant (.int 2))), .constant (.int 4))]
        .matching doubling = .ok r ∧
      r.functions = ["double"] ∧ AreUnmarked (.ofBlock r.body) r.body ∧
      ∀ results strategy digest,
        rewriteModule results strategy r.body digest = .ok ⟨r.body, []⟩ :=
  have h : rewriteModule _ _ doubling = .ok ⟨_, _⟩ := rfl
  ⟨_, h, rfl, rewritten_module_is_final h⟩

end StagedScript.Rewriting
