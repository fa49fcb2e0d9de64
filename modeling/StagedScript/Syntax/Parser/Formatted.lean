import StagedScript.Syntax.Fault
import StagedScript.Text.Blank

/-!
# The body of a formatted string

A body is text with fields in braces.  A doubled brace stands for the brace.
A field ends at the first closing brace that is outside of quotes and inner
brackets.
-/

namespace StagedScript.Syntax

open Text

/-- A stretch of a body. -/
inductive Piece
  | literal (text : String)
  /-- The text of an expression, and whether its written form is asked for. -/
  | field (text : String) (written : Bool)
  deriving Repr, DecidableEq

/-- The text of a field and what follows its closing brace, with `depth` brackets and perhaps a
quote open. -/
def fieldEnd? (depth : Int) (quote : Option Char) : List Char → Option (List Char × List Char)
  | [] => none
  | c :: cs =>
    let goOn (depth : Int) (quote : Option Char) :=
      (fieldEnd? depth quote cs).map fun (text, rest) => (c :: text, rest)
    match quote with
    | some q => goOn depth (if c = q then none else some q)
    | none =>
      if c = '\'' ∨ c = '"' then goOn depth (some c)
      else if c = '(' ∨ c = '[' ∨ c = '\x7b' then goOn (depth + 1) none
      else if c = ')' ∨ c = ']' then goOn (depth - 1) none
      else if c = '\x7d' then
        if depth = 0 then some ([], cs) else goOn (depth - 1) none
      else goOn depth none

theorem length_fieldEnd? {depth : Int} {quote : Option Char} {cs text rest : List Char}
    (h : fieldEnd? depth quote cs = some (text, rest)) :
    text.length + rest.length < cs.length := by
  induction cs generalizing depth quote text rest with
  | nil => simp [fieldEnd?] at h
  | cons c cs ih =>
    have step {depth : Int} {quote : Option Char}
        (h : (fieldEnd? depth quote cs).map (fun (text, rest) => (c :: text, rest)) =
          some (text, rest)) :
        text.length + rest.length < cs.length + 1 := by
      obtain ⟨⟨t, r⟩, ht, heq⟩ := Option.map_eq_some_iff.1 h
      simp only [Prod.mk.injEq] at heq
      have := ih ht
      rw [← heq.1, ← heq.2, List.length_cons]
      omega
    rw [List.length_cons]
    unfold fieldEnd? at h
    dsimp only at h
    split at h
    · exact step h
    split at h
    · exact step h
    split at h
    · exact step h
    split at h
    · exact step h
    split at h
    · split at h
      · simp only [Option.some.injEq, Prod.mk.injEq] at h
        rw [← h.1, ← h.2, List.length_nil]
        omega
      · exact step h
    · exact step h

/-- The expression text of a field and whether it ends with the mark of the written form. -/
def fieldParts (cs : List Char) : List Char × Bool :=
  match cs.reverse with
  | 'r' :: '!' :: text => (text.reverse, true)
  | 's' :: '!' :: text => (text.reverse, false)
  | _ => (cs, false)

/-- A literal piece unless the text, which is reversed, is empty. -/
def flush (text : List Char) : List Piece :=
  if text.isEmpty then [] else [.literal (String.ofList text.reverse)]

/-- The pieces of a body up to its end or its first fault, where `text` is the reversed literal
text that was read last. -/
def piecesFrom (text : List Char) (cs : List Char) : List Piece × Option Defect :=
  match cs with
  | [] => (flush text, none)
  | '\x7b' :: '\x7b' :: cs => piecesFrom ('\x7b' :: text) cs
  | '\x7d' :: '\x7d' :: cs => piecesFrom ('\x7d' :: text) cs
  | '\x7d' :: _ => ([], some .loneClosingBrace)
  | '\x7b' :: cs =>
    match _h : fieldEnd? 0 none cs with
    | none => ([], some .unclosedField)
    | some (field, rest) =>
      let (expr, written) := fieldParts field
      if expr.all isBlank then ([], some .emptyField)
      else
        let (later, fault) := piecesFrom [] rest
        (flush text ++ .field (trim (String.ofList expr)) written :: later, fault)
  | c :: cs => piecesFrom (c :: text) cs
termination_by cs.length
decreasing_by
  all_goals simp only [List.length_cons]
  all_goals try have := length_fieldEnd? _h
  all_goals omega

/-- The pieces of a body up to its end or its first fault, and that fault. -/
def bodyPieces (body : String) : List Piece × Option Defect :=
  piecesFrom [] body.toList

end StagedScript.Syntax
