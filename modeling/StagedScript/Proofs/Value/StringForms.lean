import StagedScript.Proofs.Value.WrittenForm

/-!
# The written forms of a string

A string is written in source text between quotes of either kind, in the written
form of values in the quotes that it needs fewer escapes for, and as a
documentation string between three quotes.  The forms differ in what they escape.
There is one reader for all of them, and it gives back the string.
-/

namespace StagedScript

open Syntax Text

/-- The text as a whole is read as one string. -/
def Denotes (text s : String) : Prop :=
  ∃ ts, tokens text = .ok ts ∧ ts.map Token.kind = [.string s, .newline, .eof]

theorem denotes_of_spells {text s : String} (h : Spells text.toList [.string s]) :
    Denotes text s :=
  tokens_of_spells h (List.cons_ne_nil _ _)

/-- Whatever its characters are, a string is read back from each of its written forms. -/
theorem string_forms_are_read_back (s : String) :
    Denotes (sourceQuoted '"' s) s ∧ Denotes (sourceQuoted '\'' s) s ∧
      (∀ heap : Heap, Denotes (heap.view (.string s)).repr s) ∧ Denotes (tripleQuoted s) s := by
  refine ⟨?_, ?_, fun heap => ?_, ?_⟩
  · exact denotes_of_spells (.string (.inl rfl) s)
  · exact denotes_of_spells (.string (.inr rfl) s)
  · have hrepr : (heap.view (.string s)).repr = valueQuoted s := by
      rw [Heap.view, Heap.viewWithin, Datum.repr, Datum.constantText]
    rw [hrepr]
    exact denotes_of_spells (spells_valueQuoted s)
  · exact denotes_of_spells (.tripleQuoted s)

-- Of the quotes inside, those are escaped that could close the string.
example : tripleQuoted "a \"\"\" b\nc\\d\"\"" = "\"\"\"a \\\"\"\" b\nc\\\\d\\\"\\\"\"\"\"" := by
  decide

end StagedScript
