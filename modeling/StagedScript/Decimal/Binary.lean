/-!
# Doubles as exact numbers

A finite double is a whole number times a power of two.  Everything that has
to be exact about a double, its decimal text and its rounding to a whole
number, starts from this form.
-/

namespace StagedScript.Decimal

/-- The number `± mantissa · 2 ^ exponent`. -/
structure Binary where
  negative : Bool
  mantissa : Nat
  exponent : Int
  deriving Repr, DecidableEq

/-- What a double stands for. -/
inductive Parts
  | notANumber
  | infinite (negative : Bool)
  | finite (number : Binary)
  deriving Repr, DecidableEq

/-- Reads the sign, exponent and fraction fields of a double. -/
def decode (x : Float) : Parts :=
  let bits := x.toBits.toNat
  let negative := decide (Nat.pow 2 63 ≤ bits)
  let field : Nat := bits / Nat.pow 2 52 % Nat.pow 2 11
  let fraction : Nat := bits % Nat.pow 2 52
  if field = 2047 then
    if fraction = 0 then .infinite negative else .notANumber
  else if field = 0 then
    .finite ⟨negative, fraction, -1074⟩
  else
    .finite ⟨negative, fraction + Nat.pow 2 52, (field : Int) - 1075⟩

namespace Binary

/-- The whole number nearest to zero from the number, and what is left of its magnitude in units
of `1 / denominator`. -/
structure Split where
  whole : Nat
  rest : Nat
  denominator : Nat

/-- The magnitude cut at the point. -/
def split (b : Binary) : Split :=
  if 0 ≤ b.exponent then
    ⟨b.mantissa * Nat.pow 2 b.exponent.toNat, 0, 1⟩
  else
    let denominator := Nat.pow 2 (-b.exponent).toNat
    ⟨b.mantissa / denominator, b.mantissa % denominator, denominator⟩

def signed (b : Binary) (magnitude : Nat) : Int :=
  if b.negative then -(magnitude : Int) else magnitude

def truncate (b : Binary) : Int :=
  b.signed b.split.whole

/-- The greatest whole number that is not above. -/
def floor (b : Binary) : Int :=
  let s := b.split
  b.signed (if b.negative && s.rest != 0 then s.whole + 1 else s.whole)

/-- The least whole number that is not below. -/
def ceil (b : Binary) : Int :=
  let s := b.split
  b.signed (if !b.negative && s.rest != 0 then s.whole + 1 else s.whole)

/-- The nearest whole number; a half goes to the even neighbour. -/
def roundHalfEven (b : Binary) : Int :=
  let s := b.split
  let up :=
    if 2 * s.rest = s.denominator then s.whole % 2 = 1 else s.denominator < 2 * s.rest
  b.signed (if up then s.whole + 1 else s.whole)

end Binary

def int64Min : Int := -Int.ofNat (Nat.pow 2 63)

def int64Max : Int := Int.ofNat (Nat.pow 2 63) - 1

def fitsInt64 (n : Int) : Bool :=
  decide (int64Min ≤ n ∧ n ≤ int64Max)

/-- The nearest signed 64-bit integer. -/
def clampInt64 (n : Int) : Int64 :=
  Int64.ofInt (max int64Min (min int64Max n))

/-- Rounds a double to a 64-bit integer.  Values out of range, infinities among them, go to the
nearest end of the range, and what is not a number goes to zero. -/
def toInt64 (round : Binary → Int) (x : Float) : Int64 :=
  match decode x with
  | .notANumber => 0
  | .infinite negative => clampInt64 (if negative then int64Min else int64Max)
  | .finite b => clampInt64 (round b)

/-- The double nearest to a 64-bit integer, the one with the even mantissa if two are equally
near. -/
def ofInt64 (n : Int64) : Float :=
  let magnitude := (UInt64.ofNat n.toInt.natAbs).toFloat
  if n.toInt < 0 then -magnitude else magnitude

end StagedScript.Decimal
