import StagedScript.Machine.Operator

/-!
# The mathematical module

Functions of doubles; whole numbers are converted first.
-/

namespace StagedScript.Builtin

open Run

/-- The ratio of a circle's circumference to its diameter. -/
def pi : Float := 3.14159265358979323846264338327950288

/-- The base of the natural logarithm. -/
def euler : Float := 2.71828182845904523536028747135266250

/-- An argument that has to be a number. -/
def realArg (f : MathFunction) (v : Value) : Run Float :=
  match v with
  | .int n => pure (Decimal.ofInt64 n)
  | .float x => pure x
  | other => fault (.notReal f.name other.typeName)

/-- The only argument, which has to be a number. -/
def onlyReal (f : MathFunction) : List Value → Run Float
  | [v] => realArg f v
  | args => fault (.notOneArgument f.name args.length)

/-- A double as the whole number next to it. -/
def wholeNumber (f : MathFunction) (round : Decimal.Binary → Int) (args : List Value) :
    Run Value := do
  match args with
  | [.int n] => return .int n
  | args =>
    let x ← onlyReal f args
    if Decimal.isFinite x then return .int (Decimal.toInt64 round x)
    else fault (.notFiniteToWhole (Decimal.text Decimal.diagnosticSpecials x) f.name)

/-- Calls a mathematical function. -/
def callMath (f : MathFunction) (args : List Value) : Run Value := do
  match f with
  | .sin => return .float (← onlyReal f args).sin
  | .cos => return .float (← onlyReal f args).cos
  | .tan => return .float (← onlyReal f args).tan
  | .radians => return .float ((← onlyReal f args) * (pi / 180.0))
  | .degrees => return .float ((← onlyReal f args) * 57.2957795130823208767981548141051703)
  | .sqrt =>
    let x ← onlyReal f args
    if x < 0.0 then fault .outsideDomain else return .float x.sqrt
  | .floor => wholeNumber f Decimal.Binary.floor args
  | .ceil => wholeNumber f Decimal.Binary.ceil args
  | .pow =>
    match args with
    | [base, exponent] =>
      let x ← realArg f base
      let y ← realArg f exponent
      return .float (x ^ y)
    | args => fault (.notTwoArguments args.length)

end StagedScript.Builtin
