import StagedScript.Decimal.Notation
import StagedScript.Syntax.Fault
import StagedScript.Text.Printable
import StagedScript.Text.Quoted

/-!
# The wording of syntax faults

A fault is reported with its place.  A token out of place is shown by its
capitalised name and what it carries.
-/

namespace StagedScript.Syntax

open Text

/-- The name of a symbol in diagnostics. -/
def Symbol.title : Symbol → String
  | plus => "Plus"
  | minus => "Minus"
  | star => "Star"
  | starStar => "StarStar"
  | slash => "Slash"
  | slashSlash => "SlashSlash"
  | percent => "Percent"
  | eq => "Eq"
  | plusEq => "PlusEq"
  | minusEq => "MinusEq"
  | starEq => "StarEq"
  | eqEq => "EqEq"
  | notEq => "NotEq"
  | lt => "Lt"
  | gt => "Gt"
  | ltEq => "LtEq"
  | gtEq => "GtEq"
  | arrow => "Arrow"
  | colon => "Colon"
  | comma => "Comma"
  | dot => "Dot"
  | atSign => "At"
  | pipe => "Pipe"
  | leftParen => "LParen"
  | rightParen => "RParen"
  | leftBracket => "LBracket"
  | rightBracket => "RBracket"
  | leftBrace => "LBrace"
  | rightBrace => "RBrace"

/-- The name of a reserved word in diagnostics: the word with a capital letter. -/
def Keyword.title (word : Keyword) : String :=
  word.text.capitalize

/-- A character inside of the quotes of a diagnostic. -/
def diagnosticChar (c : Char) : List Char :=
  if c = '\x00' then ['\\', '0']
  else if c = '\t' then ['\\', 't']
  else if c = '\r' then ['\\', 'r']
  else if c = '\n' then ['\\', 'n']
  else if c = '\\' ∨ c = '"' then ['\\', c]
  else if isPrintable c then [c]
  else '\\' :: 'u' :: '\x7b' :: Nat.toDigits 16 c.toNat ++ ['\x7d']

/-- A text in the quotes of a diagnostic. -/
def diagnosticQuoted (s : String) : String :=
  "\"" ++ String.ofList (s.toList.flatMap diagnosticChar) ++ "\""

/-- The name of a kind of token. -/
def Lexeme.title : Lexeme → String
  | indent => "Indent"
  | dedent => "Dedent"
  | newline => "Newline"
  | eof => "Eof"
  | keyword word => word.title
  | symbol sign => sign.title
  | identifier _ => "Identifier"
  | integer _ => "Integer"
  | float _ => "Float"
  | string _ => "String"
  | formatted _ => "FString"
  | comment _ => "Comment"

/-- A token with what it carries. -/
def Lexeme.diagnostic (kind : Lexeme) : String :=
  let carrying (content : String) := kind.title ++ "(" ++ content ++ ")"
  match kind with
  | integer magnitude => carrying (toString magnitude)
  | float value => carrying (Decimal.text Decimal.diagnosticSpecials value)
  | identifier content | string content | formatted content | comment content =>
    carrying (diagnosticQuoted content)
  | _ => kind.title

def SyntaxFault.message : SyntaxFault → String
  | unexpected expected got span =>
    s!"Unexpected token at {span.text}: expected {expected}, got {got.diagnostic}"
  | invalid defect span => s!"Syntax error at {span.text}: {defect.message}"
  | exhausted => "Source is nested too deeply"

end StagedScript.Syntax
