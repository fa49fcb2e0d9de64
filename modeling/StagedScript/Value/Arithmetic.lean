import StagedScript.Decimal.Binary
import StagedScript.Value.Fault

/-!
# Arithmetic

Whole numbers have 64 bits with a sign; a result that does not fit is a fault.
Floor division and remainder take the sign of the divisor.  As soon as one
operand is a double the operation is one on doubles.
-/

namespace StagedScript

open Syntax (BinaryOp UnaryOp Constant)

namespace Integer

/-- A whole number, if it has at most 64 bits. -/
def checked (n : Int) : Except Fault Int64 :=
  if Decimal.fitsInt64 n then .ok (Int64.ofInt n) else .error .overflow

/-- A number that passes the check is kept as it is. -/
theorem toInt_of_checked {n : Int} {r : Int64} (h : checked n = .ok r) : r.toInt = n := by
  rw [checked] at h
  split at h
  · next hfits =>
    rw [Decimal.fitsInt64, decide_eq_true_iff] at hfits
    have hgreatest : Decimal.int64Max = 2 ^ 63 - 1 := rfl
    rw [← Except.ok.inj h]
    exact Int64.toInt_ofInt_of_le hfits.1 (by omega)
  · exact nomatch h

/-- The quotient rounded towards zero; it is refused if there is none or it does not fit. -/
def checkedDiv (a b : Int64) : Except Fault Int64 :=
  if b = 0 ∨ a = Int64.minValue ∧ b = -1 then .error .overflow else .ok (a / b)

/-- The rest of the quotient rounded towards zero; it is refused where the quotient is. -/
def checkedRem (a b : Int64) : Except Fault Int64 :=
  if b = 0 ∨ a = Int64.minValue ∧ b = -1 then .error .overflow else .ok (a % b)

/-- The quotient rounded down: one less than that rounded towards zero if there is a rest and the
signs differ. -/
def floorDiv (a b : Int64) : Except Fault Int64 := do
  if b = 0 then throw .integerZeroDivision
  let q ← checkedDiv a b
  return if a % b ≠ 0 ∧ decide (a < 0) ≠ decide (b < 0) then q - 1 else q

/-- The remainder of the quotient rounded down: a rest of the other sign is moved by the divisor. -/
def mod (a b : Int64) : Except Fault Int64 := do
  if b = 0 then throw .integerZeroDivision
  let r ← checkedRem a b
  return if r ≠ 0 ∧ decide (r < 0) ≠ decide (b < 0) then r + b else r

/-- The greatest exponent. -/
def maxExponent : Nat := Nat.pow 2 32 - 1

/-- A power with a natural exponent.  A base of magnitude two or more leaves the range before the
exponent reaches 64. -/
def pow (a : Int64) (exponent : Nat) : Except Fault Int64 :=
  if maxExponent < exponent then .error .overflow
  else if a = 0 ∨ a = 1 then .ok (if exponent = 0 then 1 else a)
  else if a = -1 then .ok (if exponent % 2 = 0 then 1 else -1)
  else if 64 ≤ exponent then .error .overflow
  else checked (Int.pow a.toInt exponent)

/-- The operation on whole numbers; nothing if it is one on doubles. -/
def binary? (op : BinaryOp) (a b : Int64) : Option (Except Fault Int64) :=
  match op with
  | .add => some (checked (a.toInt + b.toInt))
  | .sub => some (checked (a.toInt - b.toInt))
  | .mul => some (checked (a.toInt * b.toInt))
  | .floorDiv => some (floorDiv a b)
  | .mod => some (mod a b)
  | .pow =>
    if 0 ≤ b then some (pow a b.toInt.toNat)
    else if a = 0 then some (.error .zeroToNegativePower)
    else none
  | _ => none

def neg (a : Int64) : Except Fault Int64 :=
  checked (-a.toInt)

def abs (a : Int64) : Except Fault Int64 :=
  checked a.toInt.natAbs

end Integer

namespace Double

/-- The operation on doubles; nothing if there is none. -/
def binary? (op : BinaryOp) (x y : Float) : Option (Except Fault Float) :=
  match op with
  | .add => some (.ok (x + y))
  | .sub => some (.ok (x - y))
  | .mul => some (.ok (x * y))
  | .div => some (if y == 0.0 then .error .zeroDivision else .ok (x / y))
  | .floorDiv => some (if y == 0.0 then .error .floorZeroDivision else .ok (x / y).floor)
  | .mod => some (if y == 0.0 then .error .moduloZero else .ok (x - y * (x / y).floor))
  | .pow =>
    some (if x == 0.0 && y < 0.0 then .error .floatZeroToNegativePower else .ok (x ^ y))
  | _ => none

end Double

/-- An arithmetic operation on numbers; nothing if it does not apply. -/
def arithmetic? (op : BinaryOp) (a b : Constant) : Option (Except Fault Constant) :=
  let onDoubles := do
    let x ← a.float?
    let y ← b.float?
    let result ← Double.binary? op x y
    return result.map Constant.float
  match a, b with
  | .int m, .int n => ((Integer.binary? op m n).map (·.map Constant.int)).or onDoubles
  | _, _ => onDoubles

/-- A sign in front of a number. -/
def signed? (op : UnaryOp) (a : Constant) : Option (Except Fault Constant) :=
  match op, a with
  | .neg, .int n => some ((Integer.neg n).map Constant.int)
  | .neg, .float x => some (.ok (.float (-x)))
  | .pos, .int n => some (.ok (.int n))
  | .pos, .float x => some (.ok (.float x))
  | _, _ => none

/-- The most items, or bytes of a string, that a repeated sequence may have. -/
def maxRepeated : Nat := Nat.pow 2 28

/-- How often a sequence of the given length is repeated: not at all for a negative count. -/
def repeatCount (length : Nat) (times : Int64) : Except Fault Nat :=
  let times := times.toInt.toNat
  if length = 0 then .ok 0
  else if length * times ≤ maxRepeated then .ok times
  else .error .repeatTooLong

end StagedScript
