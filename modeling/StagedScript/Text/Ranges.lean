/-!
# Character ranges

A property of characters is given by the ranges of code points that have it.
-/

namespace StagedScript.Text

def inRanges (ranges : List (Nat × Nat)) (c : Char) : Bool :=
  ranges.any fun range => range.1 ≤ c.toNat && c.toNat ≤ range.2

end StagedScript.Text
