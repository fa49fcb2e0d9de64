import StagedScript.Proofs.Machine.Regime

/-!
# Operators and built-in functions make allowed changes

They only change the contents of the heap and print.
-/

namespace StagedScript

open Run Builtin
open Syntax (BinaryOp UnaryOp)

variable {r : Regime} [r.Steady] {α : Type}

/-! ## Operators -/

@[simp]
theorem respects_iterate (v : Value) : Respects r (iterate v) := by
  unfold iterate
  refine respects_bind respects_getHeap fun _ => ?_
  split <;> simp

@[simp]
theorem respects_checkHashable (v : Value) : Respects r (checkHashable v) := by
  simp [checkHashable]

@[simp]
theorem respects_equal (a b : Value) : Respects r (Run.equal a b) := by
  simp [Run.equal]

@[simp]
theorem respects_order (op : BinaryOp) (a b : Value) : Respects r (Run.order op a b) := by
  unfold Run.order
  refine respects_bind respects_getHeap fun _ => ?_
  split <;> simp

@[simp]
theorem respects_contains (container needle : Value) :
    Respects r (Run.contains container needle) := by
  unfold Run.contains
  refine respects_bind respects_getHeap fun _ => ?_
  split
  · split <;> simp
  all_goals simp

@[simp]
theorem respects_repeated (items : Array Value) (times : Int64) :
    Respects r (repeated items times) := by
  simp [repeated]

@[simp]
theorem respects_arithmetic (op : BinaryOp) (a b : Value) : Respects r (arithmetic op a b) := by
  unfold arithmetic
  refine respects_bind respects_getHeap fun _ => ?_
  split
  all_goals try split
  all_goals simp

@[simp]
theorem respects_binary (op : BinaryOp) (a b : Value) : Respects r (binary op a b) := by
  unfold binary
  split <;> simp

@[simp]
theorem respects_unary (op : UnaryOp) (v : Value) : Respects r (unary op v) := by
  unfold unary
  split
  · simp
  · split <;> simp
  · exact respects_fault _

@[simp]
theorem respects_position (what : Indexed) (length : Nat) (index : Value) :
    Respects r (position what length index) := by
  unfold position
  split
  · dsimp only
    split
    all_goals
      split
      · exact respects_pure _
      · exact respects_fault _
  · exact respects_fault _

@[simp]
theorem respects_itemAt (what : Indexed) (items : Array Value) (index : Value) :
    Respects r (itemAt what items index) := by
  simp [itemAt]

@[simp]
theorem respects_subscript (target index : Value) : Respects r (subscript target index) := by
  unfold subscript
  refine respects_bind respects_getHeap fun heap => ?_
  split
  · simp
  · simp
  · simp [characterAt]
  · refine respects_bind (respects_checkHashable index) fun _ => ?_
    split <;> simp
  · split <;> simp
  · simp

@[simp]
theorem respects_setDict (d : Ref .dict) (f : Heap → Array (Value × Value)) :
    Respects r (modifyHeap fun heap => heap.setDict d (f heap)) :=
  respects_modifyHeap fun _ => rfl

@[simp]
theorem respects_setItem (target index value : Value) :
    Respects r (setItem target index value) := by
  unfold setItem
  refine respects_bind respects_getHeap fun heap => ?_
  split
  · exact respects_bind (respects_position _ _ _) fun _ => respects_updateList _ _
  · exact respects_bind (respects_checkHashable _) fun _ => respects_setDict _ _
  · simp

@[simp]
theorem respects_member (target : Value) (field : String) : Respects r (member target field) := by
  unfold member
  refine respects_bind respects_getHeap fun heap => ?_
  split
  all_goals split
  all_goals simp

/-! ## Built-in functions -/

@[simp]
theorem respects_checkArity (f : GlobalFunction) (args : List Value) (least most : Nat) :
    Respects r (checkArity f args least most) := by
  simp [checkArity]

@[simp]
theorem respects_integerArg (f : GlobalFunction) (v : Value) : Respects r (integerArg f v) := by
  unfold integerArg
  split <;> simp

@[simp]
theorem respects_optionalArg {args : List Value} {missing : α} {f : Value → Run α}
    (hf : ∀ v, Respects r (f v)) : Respects r (optionalArg args missing f) := by
  cases args with
  | nil => exact respects_pure _
  | cons v rest => exact hf v

@[simp]
theorem respects_toInteger (v : Value) : Respects r (toInteger v) := by
  unfold toInteger
  split
  · simp
  · simp
  · simp
  · split <;> simp
  · simp

@[simp]
theorem respects_toDouble (v : Value) : Respects r (toDouble v) := by
  unfold toDouble
  split
  · simp
  · simp
  · simp
  · split <;> simp
  · simp

@[simp]
theorem respects_length (v : Value) : Respects r (Builtin.length v) := by
  unfold Builtin.length
  refine respects_bind respects_getHeap fun heap => ?_
  split <;> simp

@[simp]
theorem respects_rangeOf (numbers : List Int64) : Respects r (rangeOf numbers) := by
  unfold rangeOf
  split <;> simp [rangeOf.go]

@[simp]
theorem respects_magnitude (v : Value) : Respects r (magnitude v) := by
  unfold magnitude
  split <;> simp

@[simp]
theorem respects_round (v : Value) (places : Option Int64) :
    Respects r (Builtin.round v places) := by
  unfold Builtin.round
  split <;> simp

@[simp]
theorem respects_candidates (f : GlobalFunction) (args : List Value) :
    Respects r (candidates f args) := by
  unfold candidates
  split <;> simp

@[simp]
theorem respects_extreme (op : BinaryOp) (wanted : Ordering) (best : Value) (items : List Value) :
    Respects r (extreme op wanted best items) := by
  induction items generalizing best with
  | nil => exact respects_pure _
  | cons item items ih => exact respects_bind (respects_order _ _ _) fun _ => ih _

@[simp]
theorem respects_sumFrom (total : Value) (items : List Value) :
    Respects r (sumFrom total items) := by
  induction items generalizing total with
  | nil => exact respects_pure _
  | cons item items ih => exact respects_bind (respects_arithmetic _ _ _) fun _ => ih _

@[simp]
theorem respects_sorted (items : List Value) : Respects r (sorted items) := by
  unfold sorted
  refine respects_bind respects_getHeap fun heap => ?_
  split <;> simp

@[simp]
theorem respects_integerArgs (f : GlobalFunction) (arg : Option Value) :
    Respects r (arg.mapM (integerArg f)) := by
  cases arg with
  | none => exact respects_pure _
  | some v => exact respects_map _ (respects_integerArg f v)

@[simp]
theorem respects_callGlobal (f : GlobalFunction) (args : List Value) :
    Respects r (callGlobal f args) := by
  have hafter {x : Run Value} {least most : Nat} (hx : Respects r x) :
      Respects r (do checkArity f args least most; x) :=
    respects_bind (respects_checkArity f args least most) fun _ => hx
  cases f with
  | print => simp [callGlobal]
  | min => simp [callGlobal]
  | max => simp [callGlobal]
  | str => exact hafter (respects_map _ (by simp))
  | repr => exact hafter (respects_map _ (by simp))
  | _ => exact hafter (by simp)

@[simp]
theorem respects_realArg (f : MathFunction) (v : Value) : Respects r (realArg f v) := by
  unfold realArg
  split <;> simp

@[simp]
theorem respects_onlyReal (f : MathFunction) (args : List Value) :
    Respects r (onlyReal f args) := by
  unfold onlyReal
  split <;> simp

@[simp]
theorem respects_wholeNumber (f : MathFunction) (round : Decimal.Binary → Int)
    (args : List Value) : Respects r (wholeNumber f round args) := by
  unfold wholeNumber
  split <;> simp

@[simp]
theorem respects_callMath (f : MathFunction) (args : List Value) :
    Respects r (callMath f args) := by
  unfold callMath
  split
  all_goals try split
  all_goals simp

@[simp]
theorem respects_stringArg (method : Method) (v : Value) : Respects r (stringArg method v) := by
  unfold stringArg
  split <;> simp

@[simp]
theorem respects_badCall (type : String) (method : Method) (args : List Value) :
    Respects r (badCall type method args) :=
  respects_fault _

@[simp]
theorem respects_callStringMethod (text : String) (method : Method) (args : List Value) :
    Respects r (callStringMethod text method args) := by
  unfold callStringMethod
  split
  case h_6 => exact respects_bind (respects_iterate _) fun _ => by simp
  case h_10 =>
    refine respects_bind respects_getHeap fun heap => ?_
    split <;> simp
  all_goals simp [newStrings]

@[simp]
theorem respects_callSequenceMethod (items : Array Value) (method : Method) (args : List Value) :
    Respects r (callSequenceMethod items method args) := by
  unfold callSequenceMethod
  refine respects_bind respects_getHeap fun heap => ?_
  split
  · split <;> simp
  · simp
  · simp

@[simp]
theorem respects_callListMethod (l : Ref .list) (method : Method) (args : List Value) :
    Respects r (callListMethod l method args) := by
  unfold callListMethod
  refine respects_bind respects_getHeap fun heap => ?_
  split
  · simp
  · simp
  · refine respects_bind (respects_popList l) fun last => ?_
    split <;> simp
  · simp

@[simp]
theorem respects_callDictMethod (d : Ref .dict) (method : Method) (args : List Value) :
    Respects r (callDictMethod d method args) := by
  unfold callDictMethod
  refine respects_bind respects_getHeap fun heap => ?_
  split
  all_goals simp

@[simp]
theorem respects_callMethod (receiver : Value) (method : Method) (args : List Value) :
    Respects r (callMethod receiver method args) := by
  unfold callMethod
  split <;> simp

end StagedScript
