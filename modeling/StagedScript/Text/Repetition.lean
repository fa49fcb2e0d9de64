/-!
# Repetition

A text over and over.  The repetition is built by doubling, so that long ones
take few steps; `toList_repeated` says what it consists of.
-/

namespace StagedScript.Text

def repeated (text : String) (n : Nat) : String :=
  if n = 0 then ""
  else
    let half := repeated text (n / 2)
    if n % 2 = 0 then half ++ half else half ++ half ++ text
termination_by n

theorem toList_repeated (text : String) (n : Nat) :
    (repeated text n).toList = (List.replicate n text.toList).flatten := by
  fun_induction repeated text n with
  | case1 => rfl
  | case2 n _ half heven ih =>
    have hn : n / 2 + n / 2 = n := by omega
    rw [String.toList_append, show half.toList = _ from ih, ← List.flatten_append,
      List.replicate_append_replicate, hn]
  | case3 n _ half hodd ih =>
    have hn : n / 2 + n / 2 + 1 = n := by omega
    rw [String.toList_append, String.toList_append, show half.toList = _ from ih,
      ← List.flatten_append, List.replicate_append_replicate, ← List.flatten_concat,
      ← List.replicate_succ', hn]

end StagedScript.Text
