/-!
# Quoted strings

The written forms of a string.  They share the escapes for the backslash, the
line and tab characters and the enclosing quote, and differ in the quote they
choose and in whether other control characters are escaped.
-/

namespace StagedScript.Text

def hexDigit (n : Nat) : Char :=
  if n < 10 then Char.ofNat ('0'.toNat + n) else Char.ofNat ('a'.toNat + (n - 10))

def isControl (c : Char) : Bool :=
  c.toNat < 0x20 || c.toNat == 0x7F

/-- The written form of one character inside of `quote`. -/
def escapeChar (hexControls : Bool) (quote c : Char) : List Char :=
  if c = '\\' then ['\\', '\\']
  else if c = '\n' then ['\\', 'n']
  else if c = '\t' then ['\\', 't']
  else if c = '\r' then ['\\', 'r']
  else if c = quote then ['\\', c]
  else if hexControls && isControl c then
    ['\\', 'x', hexDigit (c.toNat / 16), hexDigit (c.toNat % 16)]
  else [c]

/-- The characters of a string without the quotes around them. -/
def escape (hexControls : Bool) (quote : Char) (s : String) : List Char :=
  s.toList.flatMap (escapeChar hexControls quote)

def quoted (hexControls : Bool) (quote : Char) (s : String) : String :=
  String.ofList (quote :: escape hexControls quote s ++ [quote])

/-- The form for source text: every control character is escaped. -/
def sourceQuoted (quote : Char) (s : String) : String :=
  quoted true quote s

/-- The form of a value: single quotes unless only they occur in the string, and no escapes for
other control characters. -/
def valueQuoted (s : String) : String :=
  let quote := if s.toList.contains '\'' && !s.toList.contains '"' then '"' else '\''
  quoted false quote s

/-- The inside of a triple-quoted string.  A quote is escaped where it could close the string: if
two more follow, or if nothing but quotes follows. -/
def tripleBody : List Char → List Char
  | [] => []
  | c :: cs =>
    if c = '\\' then '\\' :: '\\' :: tripleBody cs
    else if c = '"' ∧ (cs.all (· == '"') ∨ ['"', '"'].isPrefixOf cs) then
      '\\' :: '"' :: tripleBody cs
    else c :: tripleBody cs

/-- The triple-quoted form, which keeps the lines of the string. -/
def tripleQuoted (s : String) : String :=
  "\"\"\"" ++ String.ofList (tripleBody s.toList) ++ "\"\"\""

end StagedScript.Text
