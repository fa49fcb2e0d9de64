import StagedScript.Decimal.Shortest

/-!
# Decimals as doubles

A decimal numeral denotes the double nearest to it, the one with the even
mantissa if two are equally near.  The rounding is done in exact arithmetic.
-/

namespace StagedScript.Decimal

/-- Divides to the nearest whole number, a half to the even one. -/
def divideHalfEven (n d : Nat) : Nat :=
  let q := n / d
  let r := n % d
  if 2 * r < d then q
  else if d < 2 * r then q + 1
  else q + q % 2

/-- The bits of the double nearest to `n / d`, both positive. -/
def nearestBits (n d : Nat) : Nat :=
  let log : Int := (n.log2 : Int) - d.log2
  let scaled (q : Int) : Nat × Nat := (n * Nat.pow 2 (-q).toNat, d * Nat.pow 2 q.toNat)
  let q := max (log - 53) (-1074)
  let q := if Nat.pow 2 53 ≤ (scaled q).1 / (scaled q).2 then q + 1 else q
  let mantissa := divideHalfEven (scaled q).1 (scaled q).2
  if mantissa < Nat.pow 2 52 then mantissa
  else min (((q + 1075).toNat - 1) * Nat.pow 2 52 + mantissa) (2047 * Nat.pow 2 52)

/-- The double nearest to `digits · 10 ^ exponent`.  Numbers far outside of the range of the
doubles are not computed. -/
def nearest (d : Numeral) : Float :=
  if d.digits = 0 then 0.0
  else
    let point : Int := digitCount d.digits + d.exponent
    if point < -330 then 0.0
    else if 310 < point then Float.ofBits (UInt64.ofNat (2047 * Nat.pow 2 52))
    else
      Float.ofBits <| UInt64.ofNat <|
        nearestBits (d.digits * Nat.pow 10 d.exponent.toNat) (Nat.pow 10 (-d.exponent).toNat)

def digitsValue (ds : List Char) : Nat :=
  ds.foldl (fun n d => 10 * n + (d.toNat - '0'.toNat)) 0

/-- The decimal with the digits `whole`, a point, the digits `fraction` and a power of ten. -/
def ofParts (whole fraction : List Char) (power : Int) : Numeral :=
  ⟨digitsValue (whole ++ fraction), power - fraction.length⟩

/-- Whether a minus sign stands first, and the text after the sign, if there is one. -/
def readSign : List Char → Bool × List Char
  | '-' :: cs => (true, cs)
  | '+' :: cs => (false, cs)
  | cs => (false, cs)

/-- The power of ten in `e`, an optional sign and at least one digit; zero for no text. -/
def readPower? : List Char → Option Int
  | [] => some 0
  | e :: cs =>
    if e = 'e' ∨ e = 'E' then
      let (negative, ds) := readSign cs
      if ds.isEmpty || !ds.all Char.isDigit then none
      else some (if negative then -(digitsValue ds : Int) else digitsValue ds)
    else
      none

/-- Reads an unsigned numeral: digits with an optional point, at least one of them, and an
optional power of ten. -/
def readMagnitude? (cs : List Char) : Option Float :=
  let whole := cs.takeWhile Char.isDigit
  let rest := cs.dropWhile Char.isDigit
  let (fraction, rest) : List Char × List Char :=
    match rest with
    | '.' :: rest => (rest.takeWhile Char.isDigit, rest.dropWhile Char.isDigit)
    | rest => ([], rest)
  if whole.isEmpty && fraction.isEmpty then none
  else (readPower? rest).map fun power => nearest (ofParts whole fraction power)

/-- Reads a double: an optional sign and a numeral or one of the words `inf`, `infinity` and
`nan`, in lower case. -/
def read? (cs : List Char) : Option Float :=
  let (negative, magnitude) := readSign cs
  let value :=
    if magnitude = "inf".toList ∨ magnitude = "infinity".toList then some (1.0 / 0.0)
    else if magnitude = "nan".toList then some (0.0 / 0.0)
    else readMagnitude? magnitude
  value.map fun x => if negative then -x else x

end StagedScript.Decimal
