import StagedScript.Decimal.Reading
import StagedScript.Syntax.Fault
import StagedScript.Text.Blank
import StagedScript.Text.Letter

/-!
# From text to tokens

Each scanner reads one lexeme from the start of a list of characters and says
how many characters it is long.  `Lexer.step` reads one token together with the
layout marks in front of it and moves on by these lengths, so that no character
is lost and places are found by counting.  Every step but the last makes the
rest shorter, so reading ends.
-/

namespace StagedScript.Syntax

open Text

/-- What a scanner read, or what is wrong with it, and how many characters it went through. -/
structure Scan (α : Type) where
  result : Except Defect α
  length : Nat

namespace Scan

def map {α β : Type} (f : α → β) (s : Scan α) : Scan β :=
  ⟨s.result.map f, s.length⟩

/-- The scan of a text with `n` more characters at its start. -/
def after {α : Type} (n : Nat) (s : Scan α) : Scan α :=
  ⟨s.result, n + s.length⟩

@[simp]
theorem length_map {α β : Type} (f : α → β) (s : Scan α) : (s.map f).length = s.length := rfl

@[simp]
theorem length_after {α : Type} (n : Nat) (s : Scan α) : (s.after n).length = n + s.length := rfl

end Scan

/-! ## Strings -/

def hexValue? (c : Char) : Option Nat :=
  if c.isDigit then some (c.toNat - '0'.toNat)
  else if 'a' ≤ c ∧ c ≤ 'f' then some (c.toNat - 'a'.toNat + 10)
  else if 'A' ≤ c ∧ c ≤ 'F' then some (c.toNat - 'A'.toNat + 10)
  else none

/-- The digits of a numeral in a base up to sixteen, each below the base. -/
def digitsIn? (base : Nat) (ds : List Char) : Option Nat :=
  ds.foldl
    (fun value d => do
      let digit ← hexValue? d
      if digit < base then pure (base * (← value) + digit) else none)
    (some 0)

/-- The character that the digits of a `\x` escape denote; one plus sign may precede them. -/
def hexEscape? (cs : List Char) : Option Char :=
  let ds :=
    match cs with
    | '+' :: ds => ds
    | ds => ds
  if ds.isEmpty then none else (digitsIn? 16 ds).map Char.ofNat

/-- The character that an escape with one character denotes. -/
def simpleEscape? : Char → Option Char
  | 'n' => some '\n'
  | 't' => some '\t'
  | 'r' => some '\r'
  | '0' => some '\x00'
  | '\\' => some '\\'
  | '\'' => some '\''
  | '"' => some '"'
  | _ => none

/-- Reads the inside of a string and the quotes that close it.  In a raw string a backslash is an
ordinary character; elsewhere a backslash that starts no escape is kept. -/
def scanStringBody (quote : Char) (triple raw : Bool) : List Char → Scan (List Char)
  | [] => ⟨.error .unterminatedString, 0⟩
  | c :: cs =>
    if c = quote then
      if !triple then ⟨.ok [], 1⟩
      else
        match cs with
        | d :: e :: rest =>
          if d = quote ∧ e = quote then ⟨.ok [], 3⟩
          else ((scanStringBody quote triple raw (d :: e :: rest)).map (c :: ·)).after 1
        | cs => ((scanStringBody quote triple raw cs).map (c :: ·)).after 1
    else if c = '\n' ∧ !triple then ⟨.error .unterminatedString, 1⟩
    else if c = '\\' ∧ !raw then
      match cs with
      | [] => ⟨.error .unterminatedString, 1⟩
      | '\n' :: rest => (scanStringBody quote triple raw rest).after 2
      | 'x' :: d :: e :: rest =>
        match hexEscape? [d, e] with
        | some x => ((scanStringBody quote triple raw rest).map (x :: ·)).after 4
        | none => ⟨.error .invalidHexEscape, 4⟩
      | 'x' :: ds =>
        ⟨.error (if (hexEscape? ds).isSome then .unterminatedString else .invalidHexEscape),
          2 + ds.length⟩
      | e :: rest =>
        match simpleEscape? e with
        | some x => ((scanStringBody quote triple raw rest).map (x :: ·)).after 2
        | none => ((scanStringBody quote triple raw rest).map fun text => c :: e :: text).after 2
    else
      ((scanStringBody quote triple raw cs).map (c :: ·)).after 1

/-- Reads a string that starts with its opening quotes. -/
def scanString (raw : Bool) : List Char → Scan (List Char)
  | [] => ⟨.error .unterminatedString, 0⟩
  | quote :: cs =>
    match cs with
    | d :: e :: rest =>
      if d = quote ∧ e = quote then (scanStringBody quote true raw rest).after 3
      else (scanStringBody quote false raw (d :: e :: rest)).after 1
    | cs => (scanStringBody quote false raw cs).after 1

/-- A string lexeme; the escapes of a formatted string are resolved like those of a plain one. -/
def stringLexeme (isFormatted : Bool) (text : List Char) : Lexeme :=
  if isFormatted then .formatted (String.ofList text) else .string (String.ofList text)

theorem length_scanString_pos (raw : Bool) (c : Char) (cs : List Char) :
    0 < (scanString raw (c :: cs)).length := by
  rw [scanString.eq_def]
  dsimp only
  split
  · split <;> simp only [Scan.length_after] <;> omega
  · simp only [Scan.length_after]
    omega

/-- The string prefixes: whether the string is formatted and whether it is raw. -/
def stringPrefix? (word : List Char) : Option (Bool × Bool) :=
  match word.map Char.toLower with
  | ['f'] => some (true, false)
  | ['r'] => some (false, true)
  | ['r', 'f'] | ['f', 'r'] => some (true, true)
  | _ => none

def startsString : List Char → Bool
  | c :: _ => c == '"' || c == '\''
  | [] => false

def wordLexeme (word : List Char) : Lexeme :=
  let text := String.ofList word
  match Keyword.ofText? text with
  | some keyword => .keyword keyword
  | none => .identifier text

/-- Reads a word, or a string if the word is the prefix of one. -/
def scanWord (cs : List Char) : Scan Lexeme :=
  let word := cs.takeWhile isNamePart
  let rest := cs.drop word.length
  match if startsString rest then stringPrefix? word else none with
  | some (isFormatted, raw) =>
    ((scanString raw rest).map (stringLexeme isFormatted)).after word.length
  | none => ⟨.ok (wordLexeme word), word.length⟩

theorem length_takeWhile_pos {α : Type} {p : α → Bool} {x : α} (xs : List α) (h : p x = true) :
    0 < ((x :: xs).takeWhile p).length := by
  rw [List.takeWhile_cons_of_pos h]
  exact Nat.succ_pos _

theorem length_scanWord_pos {c : Char} (cs : List Char) (h : isNameStart c = true) :
    0 < (scanWord (c :: cs)).length := by
  have hpos := length_takeWhile_pos cs (isNamePart_of_isNameStart h)
  unfold scanWord
  dsimp only
  split
  · exact Nat.add_pos_left hpos _
  · exact hpos

/-! ## Numbers -/

/-- Digits and underscores between them, which are dropped, and how many characters they are. -/
def takeDigits (accept : Char → Bool) (cs : List Char) : List Char × Nat :=
  let run := cs.takeWhile fun c => accept c || c == '_'
  (run.filter (· != '_'), run.length)

theorem takeDigits_pos {accept : Char → Bool} {c : Char} (cs : List Char)
    (h : accept c = true) : 0 < (takeDigits accept (c :: cs)).2 :=
  length_takeWhile_pos (p := fun d => accept d || d == '_') cs (by simp [h])

/-- The base that a letter after a leading zero announces. -/
def baseOfLetter? (c : Char) : Option Nat :=
  if c = 'x' ∨ c = 'X' then some 16
  else if c = 'o' ∨ c = 'O' then some 8
  else if c = 'b' ∨ c = 'B' then some 2
  else none

def maxMagnitude : Nat := Nat.pow 2 64 - 1

def scanBased (base : Nat) (cs : List Char) : Scan Lexeme :=
  let (ds, length) := takeDigits (fun c => (hexValue? c).any (· < base)) cs
  let value := if ds.isEmpty then none else digitsIn? base ds
  match value.filter (· ≤ maxMagnitude) with
  | some n => ⟨.ok (.integer n), length⟩
  | none => ⟨.error .invalidInteger, length⟩

def startsDigit : List Char → Bool
  | c :: _ => c.isDigit
  | [] => false

/-- Reads the digits after a point, if the point is followed by one. -/
def scanFraction? : List Char → Option (List Char × Nat)
  | '.' :: cs =>
    if startsDigit cs then
      let (ds, length) := takeDigits Char.isDigit cs
      some (ds, 1 + length)
    else none
  | _ => none

/-- How many characters the sign is long that may stand first. -/
def signLength : List Char → Nat
  | c :: _ => if c = '+' ∨ c = '-' then 1 else 0
  | [] => 0

/-- Reads a power of ten, if its mark is followed by a digit or by a sign and a digit. -/
def scanPower? : List Char → Option (Int × Nat)
  | e :: cs =>
    let ds := cs.drop (signLength cs)
    if (e = 'e' ∨ e = 'E') ∧ startsDigit ds then
      let (digits, length) := takeDigits Char.isDigit ds
      let power : Int := Decimal.digitsValue digits
      some (if cs.head? = some '-' then -power else power, 1 + signLength cs + length)
    else none
  | [] => none

/-- Reads a decimal numeral; a fraction or a power of ten makes it a float. -/
def scanDecimal (cs : List Char) : Scan Lexeme :=
  let (whole, length) := takeDigits Char.isDigit cs
  let fraction := scanFraction? (cs.drop length)
  let length := length + (fraction.map (·.2)).getD 0
  let power := scanPower? (cs.drop length)
  let length := length + (power.map (·.2)).getD 0
  if fraction.isSome || power.isSome then
    let number := Decimal.ofParts whole ((fraction.map (·.1)).getD []) ((power.map (·.1)).getD 0)
    ⟨.ok (.float (Decimal.nearest number)), length⟩
  else
    let n := Decimal.digitsValue whole
    if n ≤ maxMagnitude then ⟨.ok (.integer n), length⟩
    else ⟨.error (.integerTooLarge (String.ofList whole)), length⟩

def scanNumber : List Char → Scan Lexeme
  | '0' :: c :: cs =>
    match baseOfLetter? c with
    | some base => (scanBased base cs).after 2
    | none => scanDecimal ('0' :: c :: cs)
  | cs => scanDecimal cs

theorem length_scanDecimal_pos {c : Char} (cs : List Char) (h : c.isDigit = true) :
    0 < (scanDecimal (c :: cs)).length := by
  have hpos := takeDigits_pos cs h
  unfold scanDecimal
  dsimp only
  split
  · exact Nat.add_pos_left (Nat.add_pos_left hpos _) _
  · split <;> exact Nat.add_pos_left (Nat.add_pos_left hpos _) _

theorem length_scanNumber_pos {c : Char} (cs : List Char) (h : c.isDigit = true) :
    0 < (scanNumber (c :: cs)).length := by
  unfold scanNumber
  split
  · next d ds heq =>
    split
    · exact Nat.add_pos_left (by decide) _
    · rw [← heq]
      exact length_scanDecimal_pos cs h
  · exact length_scanDecimal_pos cs h

/-- The longest symbol at the start of a text. -/
def scanSymbol? : List Char → Option Symbol
  | '+' :: '=' :: _ => some .plusEq
  | '+' :: _ => some .plus
  | '-' :: '>' :: _ => some .arrow
  | '-' :: '=' :: _ => some .minusEq
  | '-' :: _ => some .minus
  | '*' :: '*' :: _ => some .starStar
  | '*' :: '=' :: _ => some .starEq
  | '*' :: _ => some .star
  | '/' :: '/' :: _ => some .slashSlash
  | '/' :: _ => some .slash
  | '%' :: _ => some .percent
  | '=' :: '=' :: _ => some .eqEq
  | '=' :: _ => some .eq
  | '!' :: '=' :: _ => some .notEq
  | '<' :: '=' :: _ => some .ltEq
  | '<' :: _ => some .lt
  | '>' :: '=' :: _ => some .gtEq
  | '>' :: _ => some .gt
  | ':' :: _ => some .colon
  | ',' :: _ => some .comma
  | '.' :: _ => some .dot
  | '@' :: _ => some .atSign
  | '|' :: _ => some .pipe
  | '(' :: _ => some .leftParen
  | ')' :: _ => some .rightParen
  | '[' :: _ => some .leftBracket
  | ']' :: _ => some .rightBracket
  | '\x7b' :: _ => some .leftBrace
  | '\x7d' :: _ => some .rightBrace
  | _ => none

theorem length_text_pos (sign : Symbol) : 0 < sign.text.length := by
  cases sign <;> decide

/-- Reads one token of a text that does not start with blank space. -/
def scanLexeme : List Char → Scan Lexeme
  | [] => ⟨.ok .eof, 0⟩
  | c :: cs =>
    if c = '\n' then ⟨.ok .newline, 1⟩
    else if isNameStart c then scanWord (c :: cs)
    else if c.isDigit then scanNumber (c :: cs)
    else if c = '"' ∨ c = '\'' then (scanString false (c :: cs)).map (stringLexeme false)
    else
      match scanSymbol? (c :: cs) with
      | some sign => ⟨.ok (.symbol sign), sign.text.length⟩
      | none => ⟨.error (.invalidCharacter c), 1⟩

theorem length_scanLexeme_pos (c : Char) (cs : List Char) :
    0 < (scanLexeme (c :: cs)).length := by
  rw [scanLexeme]
  split
  · exact Nat.one_pos
  split
  · next h => exact length_scanWord_pos cs h
  split
  · next h => exact length_scanNumber_pos cs h
  split
  · exact length_scanString_pos ..
  split
  · exact length_text_pos _
  · exact Nat.one_pos

/-! ## Blank space and layout -/

/-- The length of what separates two tokens: spaces, tabs, carriage returns, joined lines, a comment
up to the end of its line, and between brackets also line feeds. -/
def blankLength (inBrackets : Bool) (inComment : Bool) : List Char → Nat
  | [] => 0
  | c :: cs =>
    if c = '\n' then
      if inBrackets then blankLength inBrackets false cs + 1 else 0
    else if inComment then blankLength inBrackets true cs + 1
    else if c = ' ' ∨ c = '\t' ∨ c = '\r' then blankLength inBrackets false cs + 1
    else if c = '#' then blankLength inBrackets true cs + 1
    else
      match cs with
      | '\n' :: rest => if c = '\\' then blankLength inBrackets false rest + 2 else 0
      | _ => 0

/-- A character of the blank space in front of a line. -/
def isIndentation (c : Char) : Bool :=
  c == ' ' || c == '\t' || c == '\r'

/-- How far blank space moves a line to the right: a tab counts for four spaces and a carriage
return for nothing. -/
def indentWidth (blanks : List Char) : Nat :=
  blanks.foldl (fun width c => width + if c = ' ' then 1 else if c = '\t' then 4 else 0) 0

/-- The length of the lines at the start that hold only blank space. -/
def emptyLinesLength (cs : List Char) : Nat :=
  let blanks := (cs.takeWhile isIndentation).length
  match _h : cs.drop blanks with
  | '\n' :: rest => emptyLinesLength rest + blanks + 1
  | _ => 0
termination_by cs.length
decreasing_by
  have := congrArg List.length _h
  simp only [List.length_drop, List.length_cons] at this
  omega

/-- Where reading stands between two tokens. -/
structure Lexer where
  rest : List Char
  position : Position
  /-- The widths of the open blocks, innermost first; the outermost block, of width zero, is left
  out. -/
  indents : List Nat
  /-- How many brackets are open. -/
  depth : Nat
  /-- Whether no token of the current line was read yet. -/
  atLineStart : Bool

namespace Lexer

def start (source : String) : Lexer :=
  ⟨source.toList, .start, [], 0, true⟩

def advance (l : Lexer) (n : Nat) : Lexer :=
  { l with
    rest := l.rest.drop n
    position := l.position.past (l.rest.take n) }

/-- The span of no characters at the current place. -/
def here (l : Lexer) : Span :=
  .between l.position l.position

@[simp]
theorem rest_advance (l : Lexer) (n : Nat) : (l.advance n).rest = l.rest.drop n := rfl

theorem length_rest_advance_le (l : Lexer) (n : Nat) :
    (l.advance n).rest.length ≤ l.rest.length := by
  rw [rest_advance, List.length_drop]
  exact Nat.sub_le _ _

theorem length_rest_advance_lt (l : Lexer) {n : Nat} (hn : 0 < n) (hrest : l.rest ≠ []) :
    (l.advance n).rest.length < l.rest.length := by
  rw [rest_advance, List.length_drop]
  have := List.length_pos_iff.2 hrest
  omega

def width (l : Lexer) : Nat :=
  l.indents.head?.getD 0

/-- The blocks that a line of the given width opens or closes. -/
def layout (l : Lexer) (width : Nat) : Except Defect (List Lexeme × List Nat) :=
  if l.width < width then .ok ([.indent], width :: l.indents)
  else
    let outer := l.indents.dropWhile fun w => decide (width < w)
    if outer.head?.getD 0 = width then
      .ok (List.replicate (l.indents.length - outer.length) .dedent, outer)
    else
      .error .unmatchedDedent

/-- The number of open brackets after a token. -/
def depthAfter (depth : Nat) : Lexeme → Nat
  | .symbol sign =>
    if sign.opens then depth + 1 else if sign.closes then depth - 1 else depth
  | _ => depth

/-- What reading on brings. -/
inductive Step
  /-- Tokens, and the text goes on. -/
  | more (tokens : List Token) (next : Lexer)
  /-- The last tokens. -/
  | done (tokens : List Token)
  /-- Tokens and then a fault. -/
  | fault (tokens : List Token) (defect : Defect) (span : Span)

/-- The tokens at the end of the text: the end of a line that is still open, the ends of the open
blocks and the end mark. -/
def closing (l : Lexer) (lineOpen : Bool) : List Token :=
  let kinds : List Lexeme :=
    (if lineOpen then [.newline] else []) ++ List.replicate l.indents.length .dedent ++ [.eof]
  kinds.map (⟨·, l.here⟩)

/-- Reads one token after layout marks that were already read. -/
def token (l : Lexer) (marks : List Token) (lineOpen : Bool) : Step :=
  let l := l.advance (blankLength (l.depth != 0) false l.rest)
  match l.rest with
  | [] => .done (marks ++ l.closing lineOpen)
  | c :: cs =>
    let scan := scanLexeme (c :: cs)
    let after := l.advance scan.length
    let span := Span.between l.position after.position
    match scan.result with
    | .error defect => .fault marks defect span
    | .ok kind =>
      .more (marks ++ [⟨kind, span⟩])
        { after with depth := depthAfter l.depth kind, atLineStart := kind = .newline }

/-- Reads a comment that has its line for itself. -/
def comment (l : Lexer) : Step :=
  let text := l.rest.takeWhile (· != '\n')
  let after := l.advance text.length
  let span := Span.between l.position after.position
  .more [⟨.comment (trimEnd (String.ofList (text.drop 1))), span⟩] (after.advance 1)

/-- Reads the next token and the layout marks in front of it. -/
def step (l : Lexer) : Step :=
  if l.atLineStart then
    let line := l.advance (emptyLinesLength l.rest)
    let blanks := line.rest.takeWhile isIndentation
    let l := line.advance blanks.length
    match l.rest with
    | [] => .done (l.closing false)
    | c :: _ =>
      if c = '#' then l.comment
      else
        match l.layout (indentWidth blanks) with
        | .error defect => .fault [] defect l.here
        | .ok (marks, indents) =>
          { l with indents := indents }.token (marks.map (⟨·, l.here⟩)) false
  else
    l.token [] true

theorem length_token {l next : Lexer} {marks tokens : List Token} {lineOpen : Bool}
    (h : l.token marks lineOpen = .more tokens next) :
    next.rest.length < l.rest.length := by
  unfold token at h
  dsimp only at h
  split at h
  · simp at h
  · next c cs heq =>
    split at h
    · simp at h
    · simp only [Step.more.injEq] at h
      rw [← h.2]
      exact Nat.lt_of_lt_of_le
        (length_rest_advance_lt _ (length_scanLexeme_pos c cs) (heq ▸ List.cons_ne_nil c cs))
        (length_rest_advance_le l _)

theorem length_comment {l next : Lexer} {tokens : List Token} {cs : List Char}
    (hrest : l.rest = '#' :: cs) (h : l.comment = .more tokens next) :
    next.rest.length < l.rest.length := by
  have hpos := length_takeWhile_pos (p := (· != '\n')) (x := '#') cs (by decide)
  unfold comment at h
  simp only [Step.more.injEq] at h
  rw [← h.2]
  exact Nat.lt_of_le_of_lt (length_rest_advance_le _ _)
    (length_rest_advance_lt l (by rw [hrest]; exact hpos) (by simp [hrest]))

theorem length_step {l next : Lexer} {tokens : List Token}
    (h : l.step = .more tokens next) :
    next.rest.length < l.rest.length := by
  unfold step at h
  split at h
  · dsimp only at h
    split at h
    · simp at h
    · next c cs heq =>
      have hle := Nat.le_trans
        (length_rest_advance_le (l.advance (emptyLinesLength l.rest))
          ((l.advance (emptyLinesLength l.rest)).rest.takeWhile isIndentation).length)
        (length_rest_advance_le l (emptyLinesLength l.rest))
      split at h
      · next hc => exact Nat.lt_of_lt_of_le (length_comment (by rw [heq, hc]) h) hle
      · split at h
        · simp at h
        · exact Nat.lt_of_lt_of_le (length_token h) hle
  · exact length_token h

/-- Reads to the end of the text or to the first fault. -/
def run (l : Lexer) : List Token × Option SyntaxFault :=
  match _h : l.step with
  | .done tokens => (tokens, none)
  | .fault tokens defect span => (tokens, some (.invalid defect span))
  | .more tokens next =>
    let (later, fault) := run next
    (tokens ++ later, fault)
termination_by l.rest.length
decreasing_by exact length_step _h

end Lexer

/-- The tokens of a text up to its end or its first fault, and that fault. -/
def readTokens (source : String) : List Token × Option SyntaxFault :=
  (Lexer.start source).run

/-- The tokens of a text, the last of them the end mark. -/
def tokens (source : String) : Except SyntaxFault (List Token) :=
  match readTokens source with
  | (tokens, none) => .ok tokens
  | (_, some fault) => .error fault

end StagedScript.Syntax
