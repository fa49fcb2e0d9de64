import StagedScript.Syntax.Fault

/-!
# Reading token lists

A parser takes tokens from the front of a list that ends with the end mark and
never takes the end mark itself.  Repetition is bounded by the number of tokens
of the whole text, which suffices because every round takes at least one.
-/

namespace StagedScript.Syntax

open Text

/-- Reads a part of a token list, with a bound on the rounds of a repetition. -/
abbrev Parser := ReaderT Nat (StateT (List Token) (Except SyntaxFault))

namespace Parser

def endMark : Token :=
  ⟨.eof, .between .start .start⟩

def peekToken : Parser Token := do
  return (← get).head?.getD endMark

/-- The next token without its place. -/
def peek : Parser Lexeme := do
  return (← peekToken).kind

def peekSecond : Parser (Option Lexeme) := do
  return ((← get).drop 1).head?.map (·.kind)

/-- Takes a token; the last one stays. -/
def advance : Parser Token := do
  let token ← peekToken
  modify fun tokens =>
    match tokens with
    | _ :: next :: rest => next :: rest
    | tokens => tokens
  return token

def unexpected {α : Type} (expected : String) : Parser α := do
  let token ← peekToken
  throw (.unexpected expected token.kind token.span)

def invalid {α : Type} (defect : Defect) (span : Span) : Parser α :=
  throw (.invalid defect span)

/-- Whether the next token is `kind`. -/
def isAt (kind : Lexeme) : Parser Bool := do
  return decide ((← peek) = kind)

/-- Takes the next token if it is `kind`. -/
def accept (kind : Lexeme) : Parser Bool := do
  if ← isAt kind then
    let _ ← advance
    return true
  else
    return false

def acceptSymbol (sign : Symbol) : Parser Bool :=
  accept (.symbol sign)

def expect (kind : Lexeme) (expected : String) : Parser Token := do
  if ← isAt kind then advance else unexpected expected

/-- Takes the next token, which has to be the symbol; the symbol in quotes is what was
expected. -/
def expectSymbol (sign : Symbol) : Parser Unit := do
  let _ ← expect (.symbol sign) ("'" ++ sign.text ++ "'")

def identifier (expected : String) : Parser (String × Span) := do
  match ← peek with
  | .identifier name => return (name, (← advance).span)
  | _ => unexpected expected

/-- What a parser reads from the start of a token list. -/
def readFrom {α : Type} (parser : Parser α) (tokens : List Token) : Except SyntaxFault α :=
  (parser.run (tokens.length + 1)).run' tokens

/-- Gives a repetition as many rounds as there are tokens in the text, and one more. -/
def bounded {α : Type} (rounds : Nat → Parser α) : Parser α := do
  rounds (← read)

/-- Skips line ends. -/
def skipNewlines : Parser Unit := do
  modify fun tokens => tokens.dropWhile (·.kind = .newline)

def endOfLine : Parser Unit := do
  let _ ← expect .newline "end of line"

/-- Items with commas between them up to the symbol `stop`, and whether a comma follows the first
of them.  The symbol itself is left. -/
def itemsBefore {α : Type} (stop : Symbol) (item : Parser α) : Nat → Parser (List α × Bool)
  | 0 => throw .exhausted
  | n + 1 => do
    if ← isAt (.symbol stop) then
      return ([], false)
    let first ← item
    if ← acceptSymbol .comma then
      let (others, _) ← itemsBefore stop item n
      return (first :: others, true)
    else
      return ([first], false)

/-- Items in brackets, of which the opening one was taken: up to the symbol `stop` with commas
between them. -/
def itemsUntil {α : Type} (stop : Symbol) (item : Parser α) : Parser (List α) := do
  let (items, _) ← bounded (itemsBefore stop item)
  expectSymbol stop
  return items

/-- The items that follow a first one, each after a separator.  A separator with no item after it,
as `starts` tells from the next token, ends the list. -/
def itemsAfter {α : Type} (separator : Symbol) (starts : Lexeme → Bool) (item : Parser α) :
    Nat → Parser (List α)
  | 0 => throw .exhausted
  | n + 1 => do
    if ← acceptSymbol separator then
      if starts (← peek) then
        let next ← item
        return next :: (← itemsAfter separator starts item n)
      else
        return []
    else
      return []

end Parser

end StagedScript.Syntax
