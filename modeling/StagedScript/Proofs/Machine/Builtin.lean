import StagedScript.Builtin.Function
import StagedScript.Builtin.Mathematics
import StagedScript.Builtin.Method
import StagedScript.Builtin.Table
import StagedScript.Proofs.Machine.Operator

/-!
# Built-in functions and methods keep machines sound
-/

namespace StagedScript

open Run Builtin
open Syntax (BinaryOp)

variable {guard : Guard} {m : Machine}

theorem keeps_checkArity (hm : m.Sound guard) (f : GlobalFunction) (args : List Value)
    (least most : Nat) : Keeps guard m (checkArity f args least most) fun _ _ => True := by
  unfold checkArity
  split
  · exact keeps_fault hm _
  · exact keeps_pure hm trivial

theorem keeps_integerArg (hm : m.Sound guard) (f : GlobalFunction) (v : Value) :
    Keeps guard m (integerArg f v) fun _ _ => True := by
  unfold integerArg
  split
  · exact keeps_pure hm trivial
  · exact keeps_fault hm _

theorem keeps_integerArgs (hm : m.Sound guard) (f : GlobalFunction) (args : List Value) :
    Keeps guard m (args.mapM (integerArg f)) fun _ _ => True :=
  (keeps_mapM (P := fun _ _ => True) (Q := fun _ _ => True) (fun _ _ => trivial)
    (fun _ _ => trivial) (fun hm _ => keeps_integerArg hm f _) hm fun _ _ => trivial).imp
    fun _ _ _ _ _ => trivial

theorem keeps_optionalArg {α : Type} (hm : m.Sound guard) {args : List Value} {missing : α}
    {f : Value → Run α} {Q : α → Machine → Prop} (hargs : ∀ v ∈ args, m.Owns guard v)
    (hmissing : Q missing m) (hf : ∀ v, m.Owns guard v → Keeps guard m (f v) Q) :
    Keeps guard m (optionalArg args missing f) Q := by
  cases args with
  | nil => exact keeps_pure hm hmissing
  | cons v rest => exact hf v (hargs v (by simp))

theorem keeps_toInteger (hm : m.Sound guard) (v : Value) :
    Keeps guard m (toInteger v) fun result m' => m'.Owns guard result := by
  unfold toInteger
  split
  · exact keeps_pure hm trivial
  · exact keeps_pure hm trivial
  · split
    · exact keeps_pure hm trivial
    · exact keeps_fault hm _
  · split
    · exact keeps_pure hm trivial
    · exact keeps_fault hm _
  · exact keeps_fault hm _

theorem keeps_toDouble (hm : m.Sound guard) (v : Value) :
    Keeps guard m (toDouble v) fun result m' => m'.Owns guard result := by
  unfold toDouble
  split
  · exact keeps_pure hm trivial
  · exact keeps_pure hm trivial
  · exact keeps_pure hm trivial
  · split
    · exact keeps_pure hm trivial
    · exact keeps_fault hm _
  · exact keeps_fault hm _

theorem keeps_length (hm : m.Sound guard) (v : Value) :
    Keeps guard m (Builtin.length v) fun _ _ => True := by
  unfold Builtin.length
  refine keeps_getHeap_bind ?_
  split
  iterate 4 exact keeps_pure hm trivial
  exact keeps_fault hm _

theorem keeps_rangeOf (hm : m.Sound guard) (numbers : List Int64) :
    Keeps guard m (rangeOf numbers) fun v m' => m'.Owns guard v := by
  have hgo (start stop step : Int64) :
      Keeps guard m (rangeOf.go start stop step) fun v m' => m'.Owns guard v := by
    unfold rangeOf.go
    split
    · exact keeps_fault hm _
    · refine keeps_newList hm fun v hv => ?_
      obtain ⟨n, -, rfl⟩ := Array.mem_map.mp hv
      trivial
  unfold rangeOf
  split
  all_goals exact hgo _ _ _

theorem keeps_magnitude (hm : m.Sound guard) (v : Value) :
    Keeps guard m (magnitude v) fun result m' => m'.Owns guard result := by
  unfold magnitude
  split
  · exact keeps_bind (keeps_ofExcept hm (Q := fun _ _ => True) fun _ _ => trivial)
      fun _ _ hm' _ _ => keeps_pure hm' trivial
  · exact keeps_pure hm trivial
  · exact keeps_fault hm _

theorem keeps_round (hm : m.Sound guard) (v : Value) (places : Option Int64) :
    Keeps guard m (Builtin.round v places) fun result m' => m'.Owns guard result := by
  unfold Builtin.round
  split
  · exact keeps_pure hm trivial
  · exact keeps_pure hm trivial
  · exact keeps_pure hm trivial
  · exact keeps_fault hm _

theorem keeps_candidates (hm : m.Sound guard) (f : GlobalFunction) {args : List Value}
    (hargs : ∀ v ∈ args, m.Owns guard v) :
    Keeps guard m (candidates f args) fun items m' => ∀ v ∈ items, m'.Owns guard v := by
  have hnonempty {m' : Machine} (hm' : m'.Sound guard) {items : List Value}
      (hi : ∀ v ∈ items, m'.Owns guard v) :
      Keeps guard m' (if items.isEmpty then fault (.emptySequence f.name) else return items)
        fun items m' => ∀ v ∈ items, m'.Owns guard v := by
    split
    · exact keeps_fault hm' _
    · exact keeps_pure hm' hi
  unfold candidates
  split
  · exact keeps_fault_bind hm _
  · exact keeps_bind (keeps_iterate hm _) fun _ _ hm' _ hi => hnonempty hm' hi
  · exact hnonempty hm hargs

theorem keeps_extreme (hm : m.Sound guard) (op : BinaryOp) (wanted : Ordering) {best : Value}
    {items : List Value} (hbest : m.Owns guard best) (hitems : ∀ v ∈ items, m.Owns guard v) :
    Keeps guard m (extreme op wanted best items) fun v m' => m'.Owns guard v := by
  induction items generalizing m best with
  | nil => exact keeps_pure hm hbest
  | cons item items ih =>
    refine keeps_bind (keeps_order hm op item best) ?_
    intro ordering m' hm' hreach _
    refine ih hm' ?_ fun v hv => hreach.owns (hitems v (by simp [hv]))
    split
    · exact hreach.owns (hitems item (by simp))
    · exact hreach.owns hbest

theorem keeps_sumFrom (hm : m.Sound guard) {total : Value} {items : List Value}
    (htotal : m.Owns guard total) (hitems : ∀ v ∈ items, m.Owns guard v) :
    Keeps guard m (sumFrom total items) fun v m' => m'.Owns guard v := by
  induction items generalizing m total with
  | nil => exact keeps_pure hm htotal
  | cons item items ih =>
    refine keeps_bind (keeps_arithmetic hm .add total item) ?_
    intro sum m' hm' hreach hsum
    exact ih hm' hsum fun v hv => hreach.owns (hitems v (by simp [hv]))

theorem keeps_sorted (hm : m.Sound guard) {items : List Value}
    (hitems : ∀ v ∈ items, m.Owns guard v) :
    Keeps guard m (sorted items) fun v m' => m'.Owns guard v := by
  unfold sorted
  refine keeps_getHeap_bind ?_
  split
  · next result hsort =>
    refine keeps_newList hm fun v hv => hitems v ?_
    exact (Sorting.perm_sort hsort).mem_iff.mp (List.mem_toArray.mp hv)
  · exact keeps_fault hm _

/-! ## Global functions -/

theorem keeps_callGlobal (hm : m.Sound guard) (f : GlobalFunction) {args : List Value}
    (hargs : ∀ v ∈ args, m.Owns guard v) :
    Keeps guard m (callGlobal f args) fun v m' => m'.Owns guard v := by
  have arity {least most : Nat} {rest : Run Value}
      (h : ∀ m' : Machine, m'.Sound guard → (∀ v ∈ args, m'.Owns guard v) →
        Keeps guard m' rest fun v m' => m'.Owns guard v) :
      Keeps guard m (do checkArity f args least most; rest) fun v m' => m'.Owns guard v :=
    keeps_bind (keeps_checkArity hm f args least most) fun _ m' hm' hreach _ =>
      h m' hm' fun v hv => hreach.owns (hargs v hv)
  have items {m' : Machine} (hm' : m'.Sound guard) (hargs' : ∀ v ∈ args, m'.Owns guard v) :
      Keeps guard m' (optionalArg args [] iterate) fun items m'' =>
        ∀ v ∈ items, m''.Owns guard v :=
    keeps_optionalArg hm' hargs' (by simp) fun v _ => keeps_iterate hm' v
  unfold callGlobal
  cases f with
  | print =>
    exact keeps_getHeap_bind
      (keeps_bind (keeps_print hm _) fun _ _ hm' _ _ => keeps_pure hm' trivial)
  | str =>
    refine arity fun m' hm' hargs' => ?_
    refine keeps_bind (keeps_optionalArg hm' (Q := fun _ _ => True) hargs' trivial fun v _ => ?_)
      fun _ _ hm'' _ _ => keeps_pure hm'' trivial
    exact keeps_bind (keeps_view hm' v) fun _ _ hm'' _ _ => keeps_pure hm'' trivial
  | repr =>
    refine arity fun m' hm' hargs' => ?_
    refine keeps_bind (keeps_optionalArg hm' (Q := fun _ _ => True) hargs' trivial fun v _ => ?_)
      fun _ _ hm'' _ _ => keeps_pure hm'' trivial
    exact keeps_bind (keeps_view hm' v) fun _ _ hm'' _ _ => keeps_pure hm'' trivial
  | int =>
    exact arity fun m' hm' hargs' =>
      keeps_optionalArg hm' hargs' trivial fun v _ => keeps_toInteger hm' v
  | float =>
    exact arity fun m' hm' hargs' =>
      keeps_optionalArg hm' hargs' trivial fun v _ => keeps_toDouble hm' v
  | bool =>
    exact arity fun m' hm' hargs' =>
      keeps_bind (keeps_optionalArg hm' hargs' trivial fun v _ => keeps_isTrue hm' v)
        fun _ _ hm'' _ _ => keeps_pure hm'' trivial
  | list =>
    exact arity fun m' hm' hargs' =>
      keeps_bind (items hm' hargs') fun _ _ hm'' _ hi => keeps_newList hm'' (by simpa using hi)
  | tuple =>
    exact arity fun m' hm' hargs' =>
      keeps_bind (items hm' hargs') fun _ _ hm'' _ hi => keeps_newTuple hm'' (by simpa using hi)
  | len =>
    exact arity fun m' hm' hargs' =>
      keeps_bind (keeps_optionalArg hm' hargs' trivial fun v _ => keeps_length hm' v)
        fun _ _ hm'' _ _ => keeps_pure hm'' trivial
  | range =>
    exact arity fun m' hm' hargs' =>
      keeps_bind (keeps_integerArgs hm' _ args) fun _ _ hm'' _ _ => keeps_rangeOf hm'' _
  | abs =>
    exact arity fun m' hm' hargs' =>
      keeps_optionalArg hm' hargs' trivial fun v _ => keeps_magnitude hm' v
  | min | max =>
    refine keeps_bind (keeps_candidates hm _ hargs) ?_
    intro found m' hm' _ hi
    cases found with
    | nil => exact keeps_extreme hm' _ _ trivial (by simp)
    | cons first rest =>
      exact keeps_extreme hm' _ _ (hi first (by simp)) fun v hv => hi v (by simp at hv; simp [hv])
  | sum =>
    refine arity fun m' hm' hargs' => ?_
    refine keeps_bind (items hm' hargs') ?_
    intro found m'' hm'' hreach hi
    refine keeps_sumFrom hm'' ?_ hi
    cases hsecond : args[1]? with
    | none => exact trivial
    | some v => exact hreach.owns (hargs' v (List.mem_of_getElem? hsecond))
  | sorted =>
    exact arity fun m' hm' hargs' =>
      keeps_bind (items hm' hargs') fun _ _ hm'' _ hi => keeps_sorted hm'' hi
  | round =>
    refine arity fun m' hm' hargs' => ?_
    have hplaces : Keeps guard m' ((args[1]?).mapM (integerArg .round)) fun _ _ => True := by
      cases args[1]? with
      | none => exact keeps_pure hm' trivial
      | some v => exact keeps_map ((keeps_integerArg hm' .round v).imp fun _ _ _ _ _ => trivial)
    refine keeps_bind hplaces ?_
    intro places m'' hm'' hreach _
    exact keeps_optionalArg hm'' (fun v hv => hreach.owns (hargs' v hv)) trivial
      fun v _ => keeps_round hm'' v places

theorem keeps_realArg (hm : m.Sound guard) (f : MathFunction) (v : Value) :
    Keeps guard m (realArg f v) fun _ _ => True := by
  unfold realArg
  split
  · exact keeps_pure hm trivial
  · exact keeps_pure hm trivial
  · exact keeps_fault hm _

theorem keeps_onlyReal (hm : m.Sound guard) (f : MathFunction) (args : List Value) :
    Keeps guard m (onlyReal f args) fun _ _ => True := by
  unfold onlyReal
  split
  · exact keeps_realArg hm f _
  · exact keeps_fault hm _

theorem keeps_wholeNumber (hm : m.Sound guard) (f : MathFunction)
    (round : Decimal.Binary → Int) (args : List Value) :
    Keeps guard m (wholeNumber f round args) fun v m' => m'.Owns guard v := by
  unfold wholeNumber
  split
  · exact keeps_pure hm trivial
  · refine keeps_bind (keeps_onlyReal hm f _) ?_
    intro x m' hm' _ _
    split
    · exact keeps_pure hm' trivial
    · exact keeps_fault hm' _

theorem keeps_callMath (hm : m.Sound guard) (f : MathFunction) (args : List Value) :
    Keeps guard m (callMath f args) fun v m' => m'.Owns guard v := by
  have onReal (g : Float → Float) :
      Keeps guard m (do return .float (g (← onlyReal f args))) fun v m' => m'.Owns guard v :=
    keeps_bind (keeps_onlyReal hm f args) fun _ _ hm' _ _ => keeps_pure hm' trivial
  unfold callMath
  cases f with
  | sin | cos | tan | radians | degrees => exact onReal _
  | sqrt =>
    refine keeps_bind (keeps_onlyReal hm _ args) ?_
    intro x m' hm' _ _
    split
    · exact keeps_fault hm' _
    · exact keeps_pure hm' trivial
  | floor | ceil => exact keeps_wholeNumber hm _ _ args
  | pow =>
    dsimp only
    split
    · refine keeps_bind (keeps_realArg hm _ _) ?_
      intro x m' hm' _ _
      exact keeps_bind (keeps_realArg hm' _ _) fun _ _ hm'' _ _ => keeps_pure hm'' trivial
    · exact keeps_fault hm _

/-! ## Methods -/

theorem keeps_stringArg (hm : m.Sound guard) (method : Method) (v : Value) :
    Keeps guard m (stringArg method v) fun _ _ => True := by
  unfold stringArg
  split
  · exact keeps_pure hm trivial
  · exact keeps_fault hm _

theorem keeps_newStrings (hm : m.Sound guard) (texts : List String) :
    Keeps guard m (newStrings texts) fun v m' => m'.Owns guard v := by
  refine keeps_newList hm fun v hv => ?_
  obtain ⟨s, -, rfl⟩ := List.mem_map.mp (List.mem_toArray.mp hv)
  trivial

theorem keeps_badCall (hm : m.Sound guard) (type : String) (method : Method)
    (args : List Value) : Keeps guard m (badCall type method args) fun v m' => m'.Owns guard v :=
  keeps_fault hm _

theorem keeps_callStringMethod (hm : m.Sound guard) (s : String) (method : Method)
    (args : List Value) :
    Keeps guard m (callStringMethod s method args) fun v m' => m'.Owns guard v := by
  have withText {rest : String → Run Value} (v : Value)
      (h : ∀ t m', m'.Sound guard → Keeps guard m' (rest t) fun v m' => m'.Owns guard v) :
      Keeps guard m (do rest (← stringArg method v)) fun v m' => m'.Owns guard v :=
    keeps_bind (keeps_stringArg hm method v) fun t m' hm' _ _ => h t m' hm'
  unfold callStringMethod
  split
  · exact keeps_pure hm trivial
  · exact keeps_pure hm trivial
  · exact keeps_pure hm trivial
  · exact keeps_newStrings hm _
  · refine withText _ fun separator m' hm' => ?_
    split
    · exact keeps_fault hm' _
    · exact keeps_newStrings hm' _
  · refine keeps_bind (keeps_iterate hm _) ?_
    intro items m' hm' _ _
    have hitems : Keeps guard m' (items.mapM (stringArg .join)) fun _ _ => True :=
      (keeps_mapM (P := fun _ _ => True) (Q := fun _ _ => True) (fun _ _ => trivial)
        (fun _ _ => trivial) (fun hm _ => keeps_stringArg hm _ _) hm' fun _ _ => trivial).imp
        fun _ _ _ _ _ => trivial
    exact keeps_bind hitems fun _ _ hm'' _ _ => keeps_pure hm'' trivial
  · refine withText _ fun old m' hm' => ?_
    exact keeps_bind (keeps_stringArg hm' _ _) fun _ _ hm'' _ _ => keeps_pure hm'' trivial
  · exact withText _ fun _ _ hm' => keeps_pure hm' trivial
  · exact withText _ fun _ _ hm' => keeps_pure hm' trivial
  · refine keeps_getHeap_bind ?_
    split
    · exact keeps_pure hm trivial
    · exact keeps_fault hm _
  · exact keeps_badCall hm _ _ _

theorem keeps_callSequenceMethod (hm : m.Sound guard) (items : Array Value) (method : Method)
    (args : List Value) :
    Keeps guard m (callSequenceMethod items method args) fun v m' => m'.Owns guard v := by
  unfold callSequenceMethod
  refine keeps_getHeap_bind ?_
  split
  · split
    · exact keeps_pure hm trivial
    · exact keeps_fault hm _
  · exact keeps_pure hm trivial
  · exact keeps_badCall hm _ _ _

theorem keeps_updateList (hm : m.Sound guard) {r : Ref .list} {f : Array Value → Array Value}
    (hf : ∀ v ∈ f (m.heap.list r), m.Owns guard v) :
    Keeps guard m (modifyHeap (·.updateList r f)) fun _ _ => True :=
  (keeps_modifyHeap hm (Heap.sound_updateList hm.heap hf) (Heap.grows_of_eq rfl rfl rfl rfl)).imp
    fun _ _ _ _ _ => trivial

theorem keeps_callListMethod (hm : m.Sound guard) (r : Ref .list) (method : Method)
    {args : List Value} (hargs : ∀ v ∈ args, m.Owns guard v) :
    Keeps guard m (callListMethod r method args) fun v m' => m'.Owns guard v := by
  unfold callListMethod
  refine keeps_getHeap_bind ?_
  split
  · next item =>
    refine keeps_bind (keeps_updateList hm fun v hv => ?_) fun _ _ hm' _ _ =>
      keeps_pure hm' trivial
    rcases Array.mem_push.mp hv with hv | rfl
    · exact hm.heap.list_within hv
    · exact hargs v (by simp)
  · next other =>
    refine keeps_bind (keeps_iterate hm other) ?_
    intro extra m' hm' _ hextra
    refine keeps_bind (keeps_updateList hm' fun v hv => ?_) fun _ _ hm'' _ _ =>
      keeps_pure hm'' trivial
    rcases Array.mem_append.mp hv with hv | hv
    · exact hm'.heap.list_within hv
    · exact hextra v (List.mem_toArray.mp hv)
  · have hpop : Keeps guard m (changeHeap (·.popList r)) fun last m' =>
        ∀ v, last = some v → m'.Owns guard v := by
      refine (keeps_changeHeap hm (Heap.sound_updateList hm.heap fun v hv => ?_)
        (Heap.grows_of_eq rfl rfl rfl rfl)).imp ?_
      · rw [← Array.mem_toList_iff, Array.toList_pop] at hv
        exact hm.heap.list_within (Array.mem_toList_iff.mp (List.mem_of_mem_dropLast hv))
      · rintro last m' - - ⟨rfl, rfl⟩ v hv
        exact hm.heap.list_within (Array.mem_of_back? hv)
    refine keeps_bind hpop ?_
    intro last m' hm' _ hlast
    cases last with
    | none => exact keeps_fault hm' _
    | some v => exact keeps_pure hm' (hlast v rfl)
  · exact keeps_callSequenceMethod hm _ _ _

theorem keeps_callDictMethod (hm : m.Sound guard) (r : Ref .dict) (method : Method)
    {args : List Value} (hargs : ∀ v ∈ args, m.Owns guard v) :
    Keeps guard m (callDictMethod r method args) fun v m' => m'.Owns guard v := by
  have get (key default : Value) (hd : m.Owns guard default) :
      Keeps guard m
        (do
          checkHashable key
          return (m.heap.valueAt? key (m.heap.dict r)).getD default)
        fun v m' => m'.Owns guard v := by
    refine keeps_bind (keeps_checkHashable hm key) ?_
    rintro _ m' hm' - rfl
    refine keeps_pure hm' ?_
    cases hv : m'.heap.valueAt? key (m'.heap.dict r) with
    | none => exact hd
    | some v => exact owns_valueAt? hm' hv
  unfold callDictMethod
  refine keeps_getHeap_bind ?_
  dsimp only
  split
  · exact get _ _ trivial
  · exact get _ _ (hargs _ (by simp))
  · refine keeps_newList hm fun v hv => ?_
    obtain ⟨e, he, rfl⟩ := Array.mem_map.mp hv
    exact (hm.heap.dict_within he).1
  · refine keeps_newList hm fun v hv => ?_
    obtain ⟨e, he, rfl⟩ := Array.mem_map.mp hv
    exact (hm.heap.dict_within he).2
  · have hpairs : Keeps guard m
        ((m.heap.dict r).toList.mapM fun (e : Value × Value) => newTuple #[e.1, e.2])
        fun pairs m' => ∀ v ∈ pairs, m'.Owns guard v := by
      refine keeps_mapM
        (P := fun m (e : Value × Value) => m.Owns guard e.1 ∧ m.Owns guard e.2)
        (Q := fun m v => m.Owns guard v) (fun hreach => And.imp hreach.owns hreach.owns)
        (fun hreach => hreach.owns) (fun hm he => keeps_newTuple hm fun v hv => ?_) hm
        fun e he => hm.heap.dict_within (Array.mem_toList_iff.mp he)
      simp only [List.mem_toArray, List.mem_cons, List.not_mem_nil, or_false] at hv
      rcases hv with rfl | rfl
      · exact he.1
      · exact he.2
    rw [Array.mapM_eq_mapM_toList]
    exact keeps_bind (keeps_map (Q := fun (pairs : Array Value) m' => ∀ v ∈ pairs, m'.Owns guard v)
      (by simpa using hpairs)) fun _ _ hm' _ hi => keeps_newList hm' hi
  · exact keeps_badCall hm _ _ _

theorem keeps_callMethod (hm : m.Sound guard) (receiver : Value) (method : Method)
    {args : List Value} (hargs : ∀ v ∈ args, m.Owns guard v) :
    Keeps guard m (callMethod receiver method args) fun v m' => m'.Owns guard v := by
  unfold callMethod
  split
  · exact keeps_callStringMethod hm _ _ _
  · exact keeps_callListMethod hm _ _ hargs
  · exact keeps_getHeap_bind (keeps_callSequenceMethod hm _ _ _)
  · exact keeps_callDictMethod hm _ _ hargs
  · exact keeps_badCall hm _ _ _

end StagedScript
