import StagedScript.Decimal.Reading
import StagedScript.Decimal.Binary
import StagedScript.Text.Blank

/-!
# Numbers from texts

How the conversions read a text as a number.  Blank space around it does not
count.
-/

namespace StagedScript

/-- Reads a whole number of at most 64 bits: an optional sign and digits, with underscores
anywhere. -/
def readInteger? (text : String) : Option Int64 :=
  let (negative, digits) := Decimal.readSign ((Text.trim text).toList.filter (· != '_'))
  if digits.isEmpty || !digits.all Char.isDigit then none
  else
    let magnitude : Int := Decimal.digitsValue digits
    let n := if negative then -magnitude else magnitude
    if Decimal.fitsInt64 n then some (Int64.ofInt n) else none

/-- Reads a double; the case of letters does not matter. -/
def readFloat? (text : String) : Option Float :=
  Decimal.read? ((Text.trim text).toList.map Char.toLower)

end StagedScript
