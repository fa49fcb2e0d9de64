import StagedScript.Staging.Results
import StagedScript.Text.Quoted

/-!
# Results in JSON

The written form of a table of results: one object for each result, indented by
two spaces a level.
-/

namespace StagedScript.Compile

open Staging (Results ResultKey)

namespace ResultsText

/-- The written form of a character inside of a string. -/
def escapeChar (c : Char) : List Char :=
  if c = '"' ∨ c = '\\' then ['\\', c]
  else if c = '\n' then ['\\', 'n']
  else if c = '\r' then ['\\', 'r']
  else if c = '\t' then ['\\', 't']
  else if c = '\x08' then ['\\', 'b']
  else if c = '\x0c' then ['\\', 'f']
  else if c.toNat < 0x20 then
    ['\\', 'u', '0', '0', Text.hexDigit (c.toNat / 16), Text.hexDigit (c.toNat % 16)]
  else [c]

def quoted (s : String) : String :=
  String.ofList ('"' :: s.toList.flatMap escapeChar ++ ['"'])

/-- Lines between brackets, each indented by one level more, with a comma after all but the
last. -/
def enclosed (opening closing : String) (indent : String) (items : List String) : String :=
  if items.isEmpty then opening ++ closing
  else
    let lines := items.map fun item => "\n" ++ indent ++ "  " ++ item
    opening ++ ",".intercalate lines ++ "\n" ++ indent ++ closing

/-- The object for a result. -/
def entry (key : ResultKey Datum) (value : Datum) : String :=
  let args :=
    match key.args? with
    | some args =>
      let items := args.values.map fun arg => quoted arg.repr
      ["\"args\": " ++ enclosed "[" "]" "    " items]
    | none => []
  enclosed "\x7b" "\x7d" "  "
    (("\"function\": " ++ quoted key.function) :: args ++ ["\"value\": " ++ quoted value.repr])

end ResultsText

def resultsText (results : Results Datum) : String :=
  ResultsText.enclosed "[" "]" "" (results.map fun (key, value) => ResultsText.entry key value)

end StagedScript.Compile
