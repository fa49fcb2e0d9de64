import StagedScript.Proofs.Evaluation.Matching

/-!
# Calls of functions

Every parameter of a call gets an argument, or a default where the arguments end.  The
body runs in a new scope with these variables, and the call has the value that the
body returns.
-/

namespace StagedScript.Evaluation

open Run

/-- The values that parameters get: the arguments in front, and defaults behind them. -/
inductive Fills : List (Option Value) → List Value → List Value → Prop
  | done : Fills [] [] []
  | given {default : Option Value} {defaults : List (Option Value)} {arg : Value}
      {args values : List Value} (rest : Fills defaults args values) :
      Fills (default :: defaults) (arg :: args) (arg :: values)
  | filled {value : Value} {defaults : List (Option Value)} {values : List Value}
      (rest : Fills defaults [] values) : Fills (some value :: defaults) [] (value :: values)

theorem Fills.length_args_le {defaults : List (Option Value)} {args values : List Value}
    (h : Fills defaults args values) : args.length ≤ defaults.length := by
  induction h with
  | done => exact Nat.le_refl _
  | given rest ih => exact Nat.succ_le_succ ih
  | filled rest ih => exact Nat.zero_le _

theorem Fills.length_values {defaults : List (Option Value)} {args values : List Value}
    (h : Fills defaults args values) : values.length = defaults.length := by
  induction h with
  | done => rfl
  | given rest ih | filled rest ih => exact congrArg Nat.succ ih

/-- The variables of a call whose parameters get the values. -/
def callFrame (f : Function) (values : List Value) : Bindings :=
  setAll [] ((f.header.params.map (·.name)).zip values)

theorem foldlM_of_fills {defaults : List (Option Value)} {args values : List Value}
    (h : Fills defaults args values) {params : List Syntax.Param}
    (hlength : defaults.length = params.length) (name : String) {k : Nat}
    (hk : params.length ≤ k) (b : Bindings) (m : Machine) :
    (((params.zip defaults).zip (args.map some ++ List.replicate k none)).foldlM
      (fun bindings ((param, default), arg) =>
        match arg.or default with
        | some value => pure (bindings.set param.name value)
        | none => fault (.missingArgument name param.name)) b : Run Bindings) m =
      .ok (setAll b ((params.map (·.name)).zip values)) m := by
  induction h generalizing params b k with
  | done =>
    cases params with
    | nil => rfl
    | cons param params => cases hlength
  | given rest ih =>
    cases params with
    | nil => cases hlength
    | cons param params =>
      exact ih (Nat.succ.inj hlength) (Nat.le_of_succ_le hk) _
  | filled rest ih =>
    cases params with
    | nil => cases hlength
    | cons param params =>
      obtain ⟨k, rfl⟩ := Nat.exists_eq_add_of_le' (Nat.one_le_of_lt hk)
      exact ih (Nat.succ.inj hlength) (Nat.le_of_succ_le_succ hk) _

/-- Parameters that can be filled are bound to their values. -/
theorem bindParams_of_fills {f : Function} {args values : List Value}
    (h : Fills f.defaults args values) (hlength : f.defaults.length = f.header.params.length)
    (m : Machine) : bindParams f args m = .ok (callFrame f values) m := by
  have hle : ¬ f.header.params.length < args.length :=
    Nat.not_lt.mpr (hlength ▸ h.length_args_le)
  rw [bindParams]
  dsimp only
  rw [if_neg hle]
  exact foldlM_of_fills h hlength f.header.name (Nat.le_refl _) [] m

/-- The machine in which the body of a function starts. -/
def called (m : Machine) (f : Function) (values : List Value) : Machine :=
  { m with heap := (m.heap.addFrame (callFrame f values)).2 }.enterCall

/-- What a call comes to when its body has run: it has the value that was returned, if there is
one. -/
def callOutcome : EStateM.Result Interrupt Machine Flow → EStateM.Result Interrupt Machine Value
  | .ok (.returned value) m => .ok value m.leaveCall
  | .ok _ m => .ok .none m.leaveCall
  | .error interrupt m => .error interrupt m.leaveCall

/-- A call runs the body in a new scope. -/
theorem callFunction_eq {s : Services} {f : Function} {args values : List Value} {m : Machine}
    (h : Fills f.defaults args values) (hlength : f.defaults.length = f.header.params.length)
    (hdepth : m.depth < maxDepth) :
    callFunction s f args m = callOutcome
      (execBlock s (⟨m.heap.frames.size⟩ :: f.scope) f.body (called m f values)) := by
  have hframe : changeHeap (·.addFrame (callFrame f values)) m =
      .ok ⟨m.heap.frames.size⟩ { m with heap := (m.heap.addFrame (callFrame f values)).2 } := rfl
  rw [callFunction, bind_of_ok (bindParams_of_fills h hlength m), bind_of_ok hframe]
  change (if maxDepth ≤ m.depth then _ else _ : Run Value) _ = _
  rw [if_neg (Nat.not_le.mpr hdepth)]
  cases hrun : execBlock s (⟨m.heap.frames.size⟩ :: f.scope) f.body (called m f values) with
  | ok flow m' =>
    have hbracket : bracket Machine.enterCall Machine.leaveCall
        (execBlock s (⟨m.heap.frames.size⟩ :: f.scope) f.body)
          { m with heap := (m.heap.addFrame (callFrame f values)).2 } = .ok flow m'.leaveCall := by
      rw [bracket, ← called, hrun]
    rw [bind_of_ok hbracket]
    cases flow <;> rfl
  | error interrupt m' =>
    apply bind_of_error
    rw [bracket, ← called, hrun]

/-- Names that are given values one after the other have them, if no name comes twice. -/
theorem get?_setAll_zip {names : List String} (hnames : names.Nodup) {values : List Value}
    (hlength : names.length = values.length) (frame : Bindings) :
    List.Forall₂ (fun name value => (setAll frame (names.zip values)).get? name = some value)
      names values := by
  induction names generalizing values frame with
  | nil =>
    obtain rfl := List.length_eq_zero_iff.mp hlength.symm
    exact .nil
  | cons name names ih =>
    cases values with
    | nil => cases hlength
    | cons value values =>
      obtain ⟨hnew, hnames⟩ := List.nodup_cons.mp hnames
      refine .cons ?_ (ih hnames (Nat.succ.inj hlength) (frame.set name value))
      have hnone : (names.zip values).reverse.lookup name = none := by
        rw [List.lookup_eq_none_iff]
        intro p hp
        have hmem : p.1 ∈ names := (List.of_mem_zip (List.mem_reverse.mp hp)).1
        exact bne_iff_ne.mpr fun heq => hnew (heq ▸ hmem)
      change (setAll (frame.set name value) (names.zip values)).get? name = some value
      rw [get?_setAll, hnone, Option.none_or, Bindings.get?_set, if_pos rfl]

theorem frame_called (m : Machine) (f : Function) (values : List Value) (r : Ref .frame) :
    (called m f values).heap.frame r =
      if r.index = m.heap.frames.size then callFrame f values else m.heap.frame r := by
  simp only [called, Machine.enterCall, Heap.frame, Heap.addFrame, Array.getElem?_push]
  split <;> rfl

/-- The parameters of a function have their values in its body. -/
theorem lookup?_called {f : Function} {args values : List Value}
    (h : Fills f.defaults args values) (hlength : f.defaults.length = f.header.params.length)
    (hnames : (f.header.params.map (·.name)).Nodup) (m : Machine) :
    List.Forall₂ (fun name value =>
        (called m f values).heap.lookup? (⟨m.heap.frames.size⟩ :: f.scope) name = some value)
      (f.header.params.map (·.name)) values := by
  have hsize : (f.header.params.map (·.name)).length = values.length := by
    rw [List.length_map, ← hlength, h.length_values]
  refine (get?_setAll_zip hnames hsize []).imp fun name value hvalue => ?_
  rw [Heap.lookup?, List.findSome?_cons, frame_called, if_pos rfl, callFrame, hvalue]

/-- Other names have in the body of a function the values that they have where it was defined. -/
theorem lookup?_called_of_notMem {f : Function} {m : Machine}
    (hscope : ∀ r ∈ f.scope, r.index < m.heap.frames.size) {name : String}
    (hname : name ∉ f.header.params.map (·.name)) (values : List Value) :
    (called m f values).heap.lookup? (⟨m.heap.frames.size⟩ :: f.scope) name =
      m.heap.lookup? f.scope name := by
  have hnone : (callFrame f values).get? name = none := by
    rw [callFrame, get?_setAll, Option.or_eq_none_iff, List.lookup_eq_none_iff]
    refine ⟨fun p hp => bne_iff_ne.mpr fun heq => hname ?_, rfl⟩
    exact heq ▸ (List.of_mem_zip (List.mem_reverse.mp hp)).1
  rw [Heap.lookup?, List.findSome?_cons, frame_called, if_pos rfl, hnone, Heap.lookup?]
  dsimp only
  generalize f.scope = scope at hscope
  induction scope with
  | nil => rfl
  | cons r rest ih =>
    obtain ⟨hr, hrest⟩ := List.forall_mem_cons.mp hscope
    rw [List.findSome?_cons, List.findSome?_cons, frame_called, if_neg hr.ne, ih hrest]

end StagedScript.Evaluation
