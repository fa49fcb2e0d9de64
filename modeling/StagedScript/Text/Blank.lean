import StagedScript.Text.Ranges

/-!
# Blank space

The characters with the Unicode property White_Space, and the trimming and
splitting of texts at them.
-/

namespace StagedScript.Text

def blankRanges : List (Nat × Nat) :=
  [(0x9, 0xD), (0x20, 0x20), (0x85, 0x85), (0xA0, 0xA0), (0x1680, 0x1680), (0x2000, 0x200A),
    (0x2028, 0x2029), (0x202F, 0x202F), (0x205F, 0x205F), (0x3000, 0x3000)]

/-- A character with the property White_Space. -/
def isBlank (c : Char) : Bool :=
  inRanges blankRanges c

/-- Removes the characters at the start for which `drop` holds. -/
def trimStartWhile (drop : Char → Bool) (s : String) : String :=
  String.ofList (s.toList.dropWhile drop)

/-- Removes the characters at the end for which `drop` holds. -/
def trimEndWhile (drop : Char → Bool) (s : String) : String :=
  String.ofList (s.toList.reverse.dropWhile drop).reverse

/-- Removes blank space at the start. -/
def trimStart (s : String) : String :=
  trimStartWhile isBlank s

/-- Removes blank space at the end. -/
def trimEnd (s : String) : String :=
  trimEndWhile isBlank s

/-- Removes blank space at both ends. -/
def trim (s : String) : String :=
  trimEnd (trimStart s)

/-- The words of `cs`, where `word` is the reversed word being read. -/
def wordsFrom (word : List Char) : List Char → List String
  | [] => if word.isEmpty then [] else [String.ofList word.reverse]
  | c :: cs =>
    if isBlank c then
      if word.isEmpty then wordsFrom [] cs
      else String.ofList word.reverse :: wordsFrom [] cs
    else
      wordsFrom (c :: word) cs

/-- The maximal stretches without blank space. -/
def words (s : String) : List String :=
  wordsFrom [] s.toList

end StagedScript.Text
