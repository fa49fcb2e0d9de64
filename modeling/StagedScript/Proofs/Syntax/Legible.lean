import StagedScript.Proofs.Decimal.Double
import StagedScript.Proofs.Syntax.Lexemes
import StagedScript.Proofs.Syntax.Plain

/-!
# Expressions whose text can be read

The text of an expression is cut into its lexemes if its names are names and its
formatted strings are single lexemes.  The expression is legible if moreover its
doubles and formatted strings are read back from their text.
-/

namespace StagedScript.Syntax

open Text

section Holds

variable (constant : Constant → Prop) (formatted : List FormattedPart → Prop)

mutual

/-- The names in the expression are names, and the conditions hold of its constants and of the parts
of its formatted strings. -/
def Expr.Holds : Expr → Prop
  | .name id _ => isName id = true
  | .constant value _ => constant value
  | .formatted parts _ => formatted parts
  | .tuple items _ | .list items _ => ItemsHold items
  | .dict entries _ => EntriesHold entries
  | .member target field _ => target.Holds ∧ isName field = true
  | .subscript target index _ => target.Holds ∧ index.Holds
  | .call callee args _ => callee.Holds ∧ ItemsHold args
  | .binary _ left right _ => left.Holds ∧ right.Holds
  | .unary _ operand _ => operand.Holds
  | .conditional condition thenValue elseValue _ =>
    condition.Holds ∧ thenValue.Holds ∧ elseValue.Holds

def ItemsHold : List Expr → Prop
  | [] => True
  | item :: items => item.Holds ∧ ItemsHold items

def EntriesHold : List Entry → Prop
  | [] => True
  | .pair key value :: entries => (key.Holds ∧ value.Holds) ∧ EntriesHold entries

end

variable {constant formatted} {constant' : Constant → Prop} {formatted' : List FormattedPart → Prop}

mutual

theorem Expr.Holds.mono (hconstant : ∀ c, constant c → constant' c)
    (hformatted : ∀ parts, formatted parts → formatted' parts) (e : Expr)
    (h : e.Holds constant formatted) : e.Holds constant' formatted' :=
  match e, h with
  | .name _ _, h => h
  | .constant c _, h => hconstant c h
  | .formatted parts _, h => hformatted parts h
  | .tuple items _, h | .list items _, h => ItemsHold.mono hconstant hformatted items h
  | .dict entries _, h => EntriesHold.mono hconstant hformatted entries h
  | .member target _ _, h => ⟨Expr.Holds.mono hconstant hformatted target h.1, h.2⟩
  | .subscript target index _, h =>
    ⟨Expr.Holds.mono hconstant hformatted target h.1,
      Expr.Holds.mono hconstant hformatted index h.2⟩
  | .call callee args _, h =>
    ⟨Expr.Holds.mono hconstant hformatted callee h.1,
      ItemsHold.mono hconstant hformatted args h.2⟩
  | .binary _ left right _, h =>
    ⟨Expr.Holds.mono hconstant hformatted left h.1,
      Expr.Holds.mono hconstant hformatted right h.2⟩
  | .unary _ operand _, h => Expr.Holds.mono hconstant hformatted operand h
  | .conditional condition thenValue elseValue _, h =>
    ⟨Expr.Holds.mono hconstant hformatted condition h.1,
      Expr.Holds.mono hconstant hformatted thenValue h.2.1,
      Expr.Holds.mono hconstant hformatted elseValue h.2.2⟩

theorem ItemsHold.mono (hconstant : ∀ c, constant c → constant' c)
    (hformatted : ∀ parts, formatted parts → formatted' parts) (items : List Expr)
    (h : ItemsHold constant formatted items) : ItemsHold constant' formatted' items :=
  match items, h with
  | [], _ => trivial
  | item :: items, h =>
    ⟨Expr.Holds.mono hconstant hformatted item h.1, ItemsHold.mono hconstant hformatted items h.2⟩

theorem EntriesHold.mono (hconstant : ∀ c, constant c → constant' c)
    (hformatted : ∀ parts, formatted parts → formatted' parts) (entries : List Entry)
    (h : EntriesHold constant formatted entries) : EntriesHold constant' formatted' entries :=
  match entries, h with
  | [], _ => trivial
  | .pair key value :: entries, h =>
    ⟨⟨Expr.Holds.mono hconstant hformatted key h.1.1,
        Expr.Holds.mono hconstant hformatted value h.1.2⟩,
      EntriesHold.mono hconstant hformatted entries h.2⟩

end

end Holds

/-- The text of a formatted string is one lexeme before any clear text. -/
def PartsWorded (parts : List FormattedPart) : Prop :=
  ∀ rest, isClear rest = true → scanLexeme (formattedText parts ++ rest) =
    ⟨.ok (.formatted (formattedBody parts)), (formattedText parts).length⟩

/-- The text of the expression is cut into its lexemes. -/
abbrev Expr.Worded : Expr → Prop :=
  Expr.Holds (fun _ => True) PartsWorded

/-- The text of a formatted string is one lexeme before any clear text, and the body of this lexeme
has the parts of the string. -/
structure PartsLegible (parts : List FormattedPart) : Prop where
  scan : PartsWorded parts
  read : ∀ (n : Nat) (span : Span), (formattedBody parts).length ≤ n → ∃ parts',
    Parser.formattedParts (Parser.exprParsers n) span (formattedBody parts) = .ok parts' ∧
      stripParts .literal parts' = stripParts Constant.plain parts

def Constant.Legible : Constant → Prop
  | .float x => Decimal.ReadsBack x
  | _ => True

/-- The text of the expression can be read. -/
abbrev Expr.Legible : Expr → Prop :=
  Expr.Holds Constant.Legible PartsLegible

/-- The texts of the expressions can be read. -/
abbrev ItemsLegible : List Expr → Prop :=
  ItemsHold Constant.Legible PartsLegible

/-- The texts of the dictionary entries can be read. -/
abbrev EntriesLegible : List Entry → Prop :=
  EntriesHold Constant.Legible PartsLegible

theorem Expr.Legible.worded {e : Expr} (h : e.Legible) : e.Worded :=
  Expr.Holds.mono (fun _ _ => trivial) (fun _ hparts => hparts.scan) e h

end StagedScript.Syntax
