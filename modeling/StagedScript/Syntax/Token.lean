import StagedScript.Text.Span

/-!
# Tokens

The words, symbols and layout marks that a source text consists of.  Layout is
part of the token list: `indent` and `dedent` bracket the blocks and `newline`
ends a logical line.
-/

namespace StagedScript.Syntax

open Text

/-- The reserved words. -/
inductive Keyword
  | defKw | returnKw | ifKw | elseKw | elifKw | whileKw | forKw | inKw | importKw | fromKw
  | asKw | passKw | breakKw | continueKw | matchKw | caseKw | raiseKw | andKw | orKw | notKw
  | trueKw | falseKw | noneKw
  deriving Repr, DecidableEq

namespace Keyword

def all : List Keyword :=
  [defKw, returnKw, ifKw, elseKw, elifKw, whileKw, forKw, inKw, importKw, fromKw, asKw, passKw,
    breakKw, continueKw, matchKw, caseKw, raiseKw, andKw, orKw, notKw, trueKw, falseKw, noneKw]

/-- The word as it is written. -/
def text : Keyword → String
  | defKw => "def"
  | returnKw => "return"
  | ifKw => "if"
  | elseKw => "else"
  | elifKw => "elif"
  | whileKw => "while"
  | forKw => "for"
  | inKw => "in"
  | importKw => "import"
  | fromKw => "from"
  | asKw => "as"
  | passKw => "pass"
  | breakKw => "break"
  | continueKw => "continue"
  | matchKw => "match"
  | caseKw => "case"
  | raiseKw => "raise"
  | andKw => "and"
  | orKw => "or"
  | notKw => "not"
  | trueKw => "True"
  | falseKw => "False"
  | noneKw => "None"

def ofText? (s : String) : Option Keyword :=
  all.find? (·.text == s)

theorem mem_all (k : Keyword) : k ∈ all := by
  cases k <;> decide

end Keyword

/-- Operators, brackets and punctuation. -/
inductive Symbol
  | plus | minus | star | starStar | slash | slashSlash | percent | eq | plusEq | minusEq
  | starEq | eqEq | notEq | lt | gt | ltEq | gtEq | arrow | colon | comma | dot | atSign | pipe
  | leftParen | rightParen | leftBracket | rightBracket | leftBrace | rightBrace
  deriving Repr, DecidableEq

namespace Symbol

/-- The symbol as it is written. -/
def text : Symbol → String
  | plus => "+"
  | minus => "-"
  | star => "*"
  | starStar => "**"
  | slash => "/"
  | slashSlash => "//"
  | percent => "%"
  | eq => "="
  | plusEq => "+="
  | minusEq => "-="
  | starEq => "*="
  | eqEq => "=="
  | notEq => "!="
  | lt => "<"
  | gt => ">"
  | ltEq => "<="
  | gtEq => ">="
  | arrow => "->"
  | colon => ":"
  | comma => ","
  | dot => "."
  | atSign => "@"
  | pipe => "|"
  | leftParen => "("
  | rightParen => ")"
  | leftBracket => "["
  | rightBracket => "]"
  | leftBrace => "\x7b"
  | rightBrace => "\x7d"

def opens : Symbol → Bool
  | leftParen | leftBracket | leftBrace => true
  | _ => false

def closes : Symbol → Bool
  | rightParen | rightBracket | rightBrace => true
  | _ => false

end Symbol

/-- What a token is, with what it carries. -/
inductive Lexeme
  /-- The start of a block. -/
  | indent
  /-- The end of a block. -/
  | dedent
  /-- The end of a logical line. -/
  | newline
  /-- The end of the text. -/
  | eof
  | keyword (word : Keyword)
  | symbol (sign : Symbol)
  | identifier (name : String)
  /-- A whole number; its sign is a token of its own. -/
  | integer (magnitude : Nat)
  | float (value : Float)
  /-- A string with its escapes resolved. -/
  | string (text : String)
  /-- The body of a formatted string: escapes resolved, fields still in braces. -/
  | formatted (body : String)
  /-- A comment on a line of its own, without its mark. -/
  | comment (text : String)
  deriving Repr, DecidableEq

/-- A lexeme and where it stands. -/
structure Token where
  kind : Lexeme
  span : Span
  deriving Repr, DecidableEq

/-- Whether a token after `kind` belongs to a line that is still open. -/
def Lexeme.keepsLineOpen : Lexeme → Bool
  | .newline | .indent | .dedent | .comment _ | .eof => false
  | _ => true

end StagedScript.Syntax
