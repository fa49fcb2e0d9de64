import StagedScript.Decimal.Shortest

/-!
# Doubles as text

A double is written with its shortest digits: positionally from one
ten-thousandth up to below ten to the sixteenth, with at least one digit after
the point, and otherwise with an exponent.  Writers differ only in the words
for what is not finite.
-/

namespace StagedScript.Decimal

/-- The words for the doubles that are not finite. -/
structure Specials where
  infinity : String
  negativeInfinity : String
  notANumber : String

/-- The digits `ds` with the point after the first `point` of them. -/
def positional (ds : List Char) (point : Int) : String :=
  if point ≤ 0 then
    "0." ++ String.ofList (List.replicate (-point).toNat '0' ++ ds)
  else
    let whole := ds.take point.toNat
    let padding := List.replicate (point.toNat - ds.length) '0'
    let fraction := ds.drop point.toNat
    String.ofList (whole ++ padding) ++ "."
      ++ (if fraction.isEmpty then "0" else String.ofList fraction)

/-- The digits `ds` with the point after the first of them and a power of ten. -/
def scientific (ds : List Char) (power : Int) : String :=
  let mantissa :=
    match ds with
    | [] => "0"
    | [d] => String.singleton d
    | d :: rest => String.ofList (d :: '.' :: rest)
  mantissa ++ "e" ++ toString power

/-- The text of a finite double's magnitude. -/
def magnitudeText (b : Binary) : String :=
  if b.mantissa = 0 then "0.0"
  else
    let d := shortest b.mantissa b.exponent
    let ds := Nat.toDigits 10 d.digits
    let point : Int := ds.length + d.exponent
    if -3 ≤ point ∧ point ≤ 16 then positional ds point else scientific ds (point - 1)

def text (specials : Specials) (x : Float) : String :=
  match decode x with
  | .notANumber => specials.notANumber
  | .infinite negative => if negative then specials.negativeInfinity else specials.infinity
  | .finite b => (if b.negative then "-" else "") ++ magnitudeText b

/-- The words in the text of a running program. -/
def plainSpecials : Specials := ⟨"inf", "-inf", "nan"⟩

/-- The words in diagnostics. -/
def diagnosticSpecials : Specials := ⟨"inf", "-inf", "NaN"⟩

/-- The expressions that stand for such doubles in source text. -/
def sourceSpecials : Specials :=
  ⟨"float(\"inf\")", "-float(\"inf\")", "float(\"nan\")"⟩

def isFinite (x : Float) : Bool :=
  match decode x with
  | .finite _ => true
  | _ => false

/-- Whether the sign of the double is negative, that of zero included. -/
def isNegative (x : Float) : Bool :=
  match decode x with
  | .notANumber => false
  | .infinite negative => negative
  | .finite b => b.negative

end StagedScript.Decimal
