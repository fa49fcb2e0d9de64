import StagedScript.Compile.Options
import StagedScript.Module.FileTree

/-!
# Options in JSON

An options text is a JSON object with one member for each option that it sets,
or a JSON array of their values in order.  All values are null, a switch or a
string, so the text is first cut into tokens and the structure is then read
from a flat list.
-/

namespace StagedScript.Compile

/-- A token of an options text. -/
inductive OptionToken
  | leftBrace
  | rightBrace
  | leftBracket
  | rightBracket
  | colon
  | comma
  | value (setting : Setting)
  deriving Repr, DecidableEq

namespace OptionsText

def isBlank (c : Char) : Bool :=
  c = ' ' || c = '\n' || c = '\t' || c = '\r'

def hexValue? (c : Char) : Option Nat :=
  if c.isDigit then some (c.toNat - '0'.toNat)
  else if 'a' ≤ c ∧ c ≤ 'f' then some (c.toNat - 'a'.toNat + 10)
  else if 'A' ≤ c ∧ c ≤ 'F' then some (c.toNat - 'A'.toNat + 10)
  else none

/-- The number that four digits of base sixteen stand for. -/
def unit? (a b c d : Char) : Option Nat := do
  return ((← hexValue? a) * 16 + (← hexValue? b)) * 256 + (← hexValue? c) * 16 + (← hexValue? d)

/-- Whether a unit is the first half of a pair. -/
def isLeading (unit : Nat) : Bool :=
  0xD800 ≤ unit && unit < 0xDC00

/-- Whether a unit is the second half of a pair. -/
def isTrailing (unit : Nat) : Bool :=
  0xDC00 ≤ unit && unit < 0xE000

def ofPair (leading trailing : Nat) : Char :=
  Char.ofNat (0x10000 + (leading - 0xD800) * 0x400 + (trailing - 0xDC00))

/-- The character after a backslash stands for a character. -/
def unescape? : Char → Option Char
  | '"' => some '"'
  | '\\' => some '\\'
  | '/' => some '/'
  | 'b' => some '\x08'
  | 'f' => some '\x0c'
  | 'n' => some '\n'
  | 'r' => some '\r'
  | 't' => some '\t'
  | _ => none

/-- Cuts a text into tokens.  Inside of a string the characters so far are given in reverse. -/
def tokens? : Option (List Char) → List Char → Option (List OptionToken)
  | none, [] => some []
  | none, 'n' :: 'u' :: 'l' :: 'l' :: cs => do
    return .value .unset :: (← tokens? none cs)
  | none, 't' :: 'r' :: 'u' :: 'e' :: cs => do
    return .value (.switch true) :: (← tokens? none cs)
  | none, 'f' :: 'a' :: 'l' :: 's' :: 'e' :: cs => do
    return .value (.switch false) :: (← tokens? none cs)
  | none, '"' :: cs => tokens? (some []) cs
  | none, c :: cs =>
    if isBlank c then tokens? none cs
    else do
      let token ←
        match c with
        | '{' => some .leftBrace
        | '}' => some .rightBrace
        | '[' => some .leftBracket
        | ']' => some .rightBracket
        | ':' => some .colon
        | ',' => some .comma
        | _ => none
      return token :: (← tokens? none cs)
  | some _, [] => none
  | some before, '"' :: cs => do
    return .value (.text (String.ofList before.reverse)) :: (← tokens? none cs)
  | some before, '\\' :: 'u' :: a :: b :: c :: d :: cs => do
    let unit ← unit? a b c d
    if isTrailing unit then none
    else if isLeading unit then
      match cs with
      | '\\' :: 'u' :: e :: f :: g :: h :: cs =>
        let trailing ← unit? e f g h
        if isTrailing trailing then tokens? (some (ofPair unit trailing :: before)) cs else none
      | _ => none
    else tokens? (some (Char.ofNat unit :: before)) cs
  | some before, '\\' :: c :: cs => do
    tokens? (some ((← unescape? c) :: before)) cs
  | some before, c :: cs =>
    if c = '\\' ∨ c.toNat < 0x20 then none else tokens? (some (c :: before)) cs

def moreValues? : List OptionToken → Option (List Setting)
  | [.rightBracket] => some []
  | .comma :: .value setting :: rest => do return setting :: (← moreValues? rest)
  | _ => none

def moreMembers? : List OptionToken → Option (List (String × Setting))
  | [.rightBrace] => some []
  | .comma :: .value (.text key) :: .colon :: .value setting :: rest => do
    return (key, setting) :: (← moreMembers? rest)
  | _ => none

/-- Gives the values of an array their keys, if there are not too many. -/
def keyed? (settings : List Setting) : Option (List (OptionKey × Setting)) :=
  if settings.length ≤ OptionKey.all.length then some (OptionKey.all.zip settings) else none

def known? (members : List (String × Setting)) : Option (List (OptionKey × Setting)) :=
  members.mapM fun (name, setting) => do return (← OptionKey.ofName? name, setting)

/-- The settings that the tokens of an options text describe. -/
def entries? : List OptionToken → Option (List (OptionKey × Setting))
  | [.leftBracket, .rightBracket] => some []
  | .leftBracket :: .value setting :: rest => do keyed? (setting :: (← moreValues? rest))
  | [.leftBrace, .rightBrace] => some []
  | .leftBrace :: .value (.text key) :: .colon :: .value setting :: rest => do
    known? ((key, setting) :: (← moreMembers? rest))
  | _ => none

/-- Whether no key occurs twice and every key admits its value. -/
def isSound (entries : List (OptionKey × Setting)) : Bool :=
  decide (entries.map (·.1)).Nodup && entries.all fun (key, setting) => key.admits setting

def settings? (text : String) : Option (List (OptionKey × Setting)) := do
  let entries ← entries? (← tokens? none text.toList)
  if isSound entries then some entries else none

end OptionsText

def Options.ofText (path text : String) : Except Failure Options :=
  match OptionsText.settings? text with
  | some settings => Options.ofSettings settings
  | none => .error (.load path "not an object with the keys of options")

def Options.ofFile (files : FileTree) (path : String) : Except Failure Options :=
  match files.read path with
  | .ok text => Options.ofText path text
  | .error e => .error (.load path e.message)

end StagedScript.Compile
