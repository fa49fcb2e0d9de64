import StagedScript.Decimal.Binary

/-!
# The shortest decimal of a double

The decimals that read back as a given double fill an interval around it.  For
one digit, two digits and so on the double is compared with its two neighbours
on the grid of decimals with that many digits; the first grid with a neighbour
in the interval wins.  Of two such neighbours the nearer is taken, and the
upper one if both are equally near.
-/

namespace StagedScript.Decimal

/-- The number `digits · 10 ^ exponent`. -/
structure Numeral where
  digits : Nat
  exponent : Int
  deriving Repr, DecidableEq

namespace Numeral

/-- Moves the zeros at the end of the digits into the exponent. -/
def trimZeros (d : Numeral) : Numeral :=
  if _h : d.digits ≠ 0 ∧ d.digits % 10 = 0 then
    trimZeros ⟨d.digits / 10, d.exponent + 1⟩
  else
    d
termination_by d.digits
decreasing_by omega

end Numeral

/-- A positive number and the interval of numbers that round to it, all over one denominator. -/
structure Interval where
  low : Nat
  value : Nat
  high : Nat
  denominator : Nat
  /-- Whether the ends belong to the interval. -/
  closed : Bool
  deriving Repr

/-- The interval around `mantissa · 2 ^ exponent`.  Below a power of two the doubles lie twice as
dense, so the lower half of the interval is half as wide. -/
def Interval.around (mantissa : Nat) (exponent : Int) : Interval :=
  let scale := Nat.pow 2 (exponent - 2).toNat
  let below := if mantissa = Nat.pow 2 52 then 1 else 2
  { low := (4 * mantissa - below) * scale
    value := 4 * mantissa * scale
    high := (4 * mantissa + 2) * scale
    denominator := Nat.pow 2 (2 - exponent).toNat
    closed := mantissa % 2 == 0 }

def digitCount (n : Nat) : Nat :=
  (Nat.toDigits 10 n).length

/-- The least `k` with `value / denominator < 10 ^ k`. -/
def Interval.magnitude (i : Interval) : Int :=
  if i.denominator ≤ i.value then
    digitCount (i.value / i.denominator)
  else
    1 - (digitCount ((i.denominator - 1) / i.value) : Int)

/-- The neighbour on the grid `10 ^ exponent` that lies in the interval, if there is one. -/
def Interval.onGrid? (i : Interval) (exponent : Int) : Option Numeral :=
  let up := Nat.pow 10 (-exponent).toNat
  let value := i.value * up
  let step := i.denominator * Nat.pow 10 exponent.toNat
  let below := value / step
  let above := below + 1
  let lowFits : Bool :=
    if i.closed then i.low * up ≤ below * step else i.low * up < below * step
  let highFits : Bool :=
    if i.closed then above * step ≤ i.high * up else above * step < i.high * up
  match lowFits, highFits with
  | true, true =>
    some ⟨if 2 * (value - below * step) < step then below else above, exponent⟩
  | true, false => some ⟨below, exponent⟩
  | false, true => some ⟨above, exponent⟩
  | false, false => none

/-- The shortest decimal that reads back as `mantissa · 2 ^ exponent`.  Seventeen digits always
suffice for a double. -/
def shortest (mantissa : Nat) (exponent : Int) : Numeral :=
  if mantissa = 0 then ⟨0, 0⟩
  else
    let i := Interval.around mantissa exponent
    let k := i.magnitude
    let found := (List.range 17).findSome? fun n => i.onGrid? (k - (n + 1 : Nat))
    (found.getD ⟨0, 0⟩).trimZeros

end StagedScript.Decimal
