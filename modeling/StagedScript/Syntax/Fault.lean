import StagedScript.Syntax.Token

/-!
# Faults of a source text

Everything that can be wrong with a text: a fault of its characters or its
structure, or a token that the grammar does not allow at its place.
-/

namespace StagedScript.Syntax

open Text

/-- What is wrong, apart from a token out of place. -/
inductive Defect
  | unterminatedString
  | invalidHexEscape
  /-- A number with a base prefix that has no digits or too many. -/
  | invalidInteger
  | integerTooLarge (digits : String)
  | integerTooSmall (digits : String)
  | invalidCharacter (c : Char)
  /-- A line that is indented less than its block and matches no outer block. -/
  | unmatchedDedent
  /-- A parameter without a default after one that has a default. -/
  | missingDefault
  | patternNotNumber
  | notAssignable
  | loneClosingBrace
  | unclosedField
  | emptyField
  deriving Repr, DecidableEq

/-- The wording of a defect. -/
def Defect.message : Defect → String
  | .unterminatedString => "unterminated string literal"
  | .invalidHexEscape => "invalid \\x escape"
  | .invalidInteger => "invalid integer literal"
  | .integerTooLarge digits => "integer literal " ++ digits ++ " is too large"
  | .integerTooSmall digits => "integer literal -" ++ digits ++ " is too small"
  | .invalidCharacter c => "invalid character '" ++ String.singleton c ++ "'"
  | .unmatchedDedent => "unindent does not match any outer indentation level"
  | .missingDefault => "non-default parameter follows default parameter"
  | .patternNotNumber => "expected number after '-' in pattern"
  | .notAssignable => "cannot assign to expression"
  | .loneClosingBrace => "single '\x7d' is not allowed in f-string"
  | .unclosedField => "expecting '\x7d' in f-string"
  | .emptyField => "f-string: empty expression not allowed"

/-- Why a text has no tree. -/
inductive SyntaxFault
  /-- Another token than the expected one. -/
  | unexpected (expected : String) (got : Lexeme) (span : Span)
  | invalid (defect : Defect) (span : Span)
  /-- The step budget of the parser ran out. -/
  | exhausted
  deriving Repr, DecidableEq

def SyntaxFault.span? : SyntaxFault → Option Span
  | .unexpected _ _ span => some span
  | .invalid _ span => some span
  | .exhausted => none

end StagedScript.Syntax
