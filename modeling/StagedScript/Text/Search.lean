/-!
# Searching in texts

A text is cut at the first occurrence of another one; splitting, replacing and
the test for containment are built from cuts.
-/

namespace StagedScript.Text

/-- What stands before and after the first occurrence of `needle`. -/
def cut? (needle : List Char) : List Char → Option (List Char × List Char)
  | [] => if needle.isEmpty then some ([], []) else none
  | c :: cs =>
    if needle.isPrefixOf (c :: cs) then
      some ([], (c :: cs).drop needle.length)
    else
      (cut? needle cs).map fun (before, after) => (c :: before, after)

theorem length_of_cut? {needle cs before after : List Char}
    (h : cut? needle cs = some (before, after)) :
    after.length + needle.length ≤ cs.length := by
  induction cs generalizing before after with
  | nil =>
    unfold cut? at h
    split at h
    · next hempty =>
      simp only [List.isEmpty_iff] at hempty
      simp_all
    · simp at h
  | cons c cs ih =>
    unfold cut? at h
    split at h
    · next hprefix =>
      have hle : needle.length ≤ (c :: cs).length :=
        List.IsPrefix.length_le (List.isPrefixOf_iff_prefix.1 hprefix)
      simp only [Option.some.injEq, Prod.mk.injEq] at h
      rw [← h.2, List.length_drop]
      omega
    · simp only [Option.map_eq_some_iff] at h
      obtain ⟨⟨b, a⟩, hcut, heq⟩ := h
      simp only [Prod.mk.injEq] at heq
      have := ih hcut
      rw [← heq.2, List.length_cons]
      omega

/-- The pieces between the occurrences of `separator`; the text itself if the separator is
empty. -/
def pieces (separator cs : List Char) : List (List Char) :=
  match _h : cut? separator cs with
  | none => [cs]
  | some (before, after) =>
    if _hne : separator = [] then [cs] else before :: pieces separator after
termination_by cs.length
decreasing_by
  have := length_of_cut? _h
  have := List.length_pos_iff.2 _hne
  omega

def contains (needle text : String) : Bool :=
  (cut? needle.toList text.toList).isSome

/-- The pieces between the occurrences of a separator that is not empty. -/
def splitAt (separator text : String) : List String :=
  (pieces separator.toList text.toList).map String.ofList

/-- Puts `new` in place of every occurrence of `old`; an empty `old` occurs before every character
and at the end. -/
def replaceAll (old new text : String) : String :=
  if old.isEmpty then
    new ++ String.ofList (text.toList.flatMap fun c => c :: new.toList)
  else
    new.intercalate (splitAt old text)

def startsWith (start text : String) : Bool :=
  start.toList.isPrefixOf text.toList

def endsWith (ending text : String) : Bool :=
  ending.toList.isSuffixOf text.toList

end StagedScript.Text
