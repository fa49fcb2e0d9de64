import StagedScript.Builtin.Reading
import StagedScript.Builtin.Sorting
import StagedScript.Machine.Operator

/-!
# The global functions

What the functions do that every module can call.
-/

namespace StagedScript.Builtin

open Run
open Syntax (BinaryOp)

/-- Fails unless the number of arguments is between `least` and `most`. -/
def checkArity (f : GlobalFunction) (args : List Value) (least most : Nat) : Run Unit :=
  if args.length < least ∨ most < args.length then
    fault (.wrongArity f.name least most args.length)
  else
    pure ()

def integerArg (f : GlobalFunction) : Value → Run Int64
  | .int n => pure n
  | other => fault (.notInteger other.typeName f.name)

/-- The conversion to a whole number. -/
def toInteger (v : Value) : Run Value := do
  match v with
  | .int n => return .int n
  | .bool b => return .int (if b then 1 else 0)
  | .float x =>
    if Decimal.isFinite x then return .int (Decimal.toInt64 Decimal.Binary.truncate x)
    else fault (.notFiniteToInteger (Decimal.text Decimal.diagnosticSpecials x))
  | .string s =>
    match readInteger? s with
    | some n => return .int n
    | none => fault (.badIntegerText (Text.valueQuoted s))
  | other => fault (.notNumberForInt other.typeName)

/-- The conversion to a double. -/
def toDouble (v : Value) : Run Value := do
  match v with
  | .int n => return .float (Decimal.ofInt64 n)
  | .float x => return .float x
  | .bool b => return .float (if b then 1.0 else 0.0)
  | .string s =>
    match readFloat? s with
    | some x => return .float x
    | none => fault (.badFloatText (Text.valueQuoted s))
  | other => fault (.notNumberForFloat other.typeName)

/-- How many items a value has. -/
def length (v : Value) : Run Nat := do
  let heap ← getHeap
  match v with
  | .string s => return s.length
  | .list r => return (heap.list r).size
  | .tuple r => return (heap.tuple r).size
  | .dict r => return (heap.dict r).size
  | other => fault (.noLength other.typeName)

/-- Whether a number comes before the end of a progression, in the direction of its step. -/
def comesBefore (stop step n : Int64) : Bool :=
  (0 < step && n < stop) || (step < 0 && stop < n)

/-- How far a number is away from the end of a progression, in the direction of its step. -/
def distance (stop step n : Int64) : Nat :=
  if 0 < step then (stop.toInt - n.toInt).toNat else (n.toInt - stop.toInt).toNat

theorem distance_lt {stop step n next : Int64} (hbefore : comesBefore stop step n = true)
    (hnext : next.toInt = n.toInt + step.toInt) :
    distance stop step next < distance stop step n := by
  simp only [comesBefore, Bool.or_eq_true, Bool.and_eq_true, decide_eq_true_eq,
    Int64.lt_iff_toInt_lt, Int64.toInt_zero] at hbefore
  simp only [distance, Int64.lt_iff_toInt_lt, Int64.toInt_zero]
  split <;> omega

/-- Adds the numbers of a progression from `n` on, as far as they come before `stop`.  It also ends
where the next number has more than 64 bits.  With each step the distance to the end shrinks. -/
def addProgression (stop step n : Int64) (items : Array Int64) : Array Int64 :=
  if _hbefore : comesBefore stop step n = true then
    match _hnext : Integer.checked (n.toInt + step.toInt) with
    | .ok next => addProgression stop step next (items.push n)
    | .error _ => items.push n
  else items
termination_by distance stop step n
decreasing_by exact distance_lt _hbefore (Integer.toInt_of_checked _hnext)

/-- The progression from `start` with the given step as far as it comes before `stop`. -/
def range (start stop step : Int64) : Array Int64 :=
  addProgression stop step start #[]

/-- The numbers that the arguments ask for: the end, start and end, or also the step. -/
def rangeOf : List Int64 → Run Value
  | [stop] => go 0 stop 1
  | [start, stop] => go start stop 1
  | start :: stop :: step :: _ => go start stop step
  | [] => go 0 0 1
where
  go (start stop step : Int64) : Run Value :=
    if step = 0 then fault .zeroStep else newList ((range start stop step).map Value.int)

def magnitude (v : Value) : Run Value := do
  match v with
  | .int n => return .int (← ofExcept (Integer.abs n))
  | .float x => return .float x.abs
  | other => fault (.badAbsOperand other.typeName)

/-- A power of a double by repeated squaring, for an exponent below `2 ^ rounds`. -/
def squaringPower (base : Float) (exponent : Nat) : Nat → Float → Float
  | 0, result => result
  | rounds + 1, result =>
    let result := if exponent % 2 = 1 then result * base else result
    if exponent / 2 = 0 then result
    else squaringPower (base * base) (exponent / 2) rounds result

/-- The power of ten that moves the point by so many places; the number of places is taken modulo
`2 ^ 32`. -/
def placeScale (places : Int64) : Float :=
  let places := places.toInt.bmod (Nat.pow 2 32)
  let scale := squaringPower 10.0 places.natAbs 33 1.0
  if places < 0 then 1.0 / scale else scale

/-- Rounding: without a number of places to the nearest whole number, a half to the even one, and
otherwise to so many places, a half away from zero. -/
def round (v : Value) (places : Option Int64) : Run Value := do
  match v, places with
  | .int n, _ => return .int n
  | .float x, none => return .int (Decimal.toInt64 Decimal.Binary.roundHalfEven x)
  | .float x, some places =>
    let scale := placeScale places
    return .float ((x * scale).round / scale)
  | other, _ => fault (.notRoundable other.typeName)

/-- What to choose the least or greatest from: the items of one argument or several arguments. -/
def candidates (f : GlobalFunction) (args : List Value) : Run (List Value) := do
  let items ←
    match args with
    | [] => fault (.nothingToCompare f.name)
    | [single] => iterate single
    | several => pure several
  if items.isEmpty then fault (.emptySequence f.name) else return items

/-- The first of the items that no other one is beyond, in the direction that the comparison
gives. -/
def extreme (op : BinaryOp) (wanted : Ordering) (best : Value) : List Value → Run Value
  | [] => pure best
  | item :: items => do
    let ordering ← order op item best
    extreme op wanted (if ordering = some wanted then item else best) items

/-- The sum of the items, from left to right. -/
def sumFrom (total : Value) : List Value → Run Value
  | [] => pure total
  | item :: items => do sumFrom (← arithmetic .add total item) items

def sorted (items : List Value) : Run Value := do
  match Sorting.sort (← getHeap).precedes items with
  | .ok items => newList items.toArray
  | .error types => fault (.notOrdered .lt types.left types.right)

/-- The value of the first argument, or of nothing. -/
def optionalArg {α : Type} (args : List Value) (missing : α) (f : Value → Run α) : Run α :=
  match args with
  | [] => pure missing
  | v :: _ => f v

/-- Calls a global function. -/
def callGlobal (f : GlobalFunction) (args : List Value) : Run Value := do
  match f with
  | .print =>
    let heap ← getHeap
    print (" ".intercalate (args.map fun v => (heap.view v).str))
    return .none
  | .str =>
    checkArity f args 0 1
    return .string (← optionalArg args "" fun v => return (← view v).str)
  | .repr =>
    checkArity f args 1 1
    return .string (← optionalArg args "" fun v => return (← view v).repr)
  | .int =>
    checkArity f args 0 1
    optionalArg args (.int 0) toInteger
  | .float =>
    checkArity f args 0 1
    optionalArg args (.float 0.0) toDouble
  | .bool =>
    checkArity f args 0 1
    return .bool (← optionalArg args false isTrue)
  | .list =>
    checkArity f args 0 1
    newList (← optionalArg args [] iterate).toArray
  | .tuple =>
    checkArity f args 0 1
    newTuple (← optionalArg args [] iterate).toArray
  | .len =>
    checkArity f args 1 1
    return .ofNat (← optionalArg args 0 length)
  | .range =>
    checkArity f args 1 3
    rangeOf (← args.mapM (integerArg f))
  | .abs =>
    checkArity f args 1 1
    optionalArg args .none magnitude
  | .min =>
    let items ← candidates f args
    extreme .lt .lt (items.headD .none) items.tail
  | .max =>
    let items ← candidates f args
    extreme .gt .gt (items.headD .none) items.tail
  | .sum =>
    checkArity f args 1 2
    sumFrom ((args[1]?).getD (.int 0)) (← optionalArg args [] iterate)
  | .sorted =>
    checkArity f args 1 1
    sorted (← optionalArg args [] iterate)
  | .round =>
    checkArity f args 1 2
    let places ← (args[1]?).mapM (integerArg f)
    optionalArg args .none (round · places)

end StagedScript.Builtin
