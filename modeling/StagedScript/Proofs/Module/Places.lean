import Mathlib.Data.List.Basic
import Mathlib.Data.List.TakeWhile
import StagedScript.Module.Cache

/-!
# Paths of places

A place has one path from the root that names its parts.  Cutting that path and
adding to it are cutting off and adding parts of the place, and following it leads
to the place.  Every other path to the place leads through directories too, so the
place has such a path.
-/

namespace StagedScript

/-! ## Pieces between characters -/

namespace Text

variable {c : Char} {word rest cs : List Char}

theorem cut?_of_notMem (h : c ∉ word) : cut? [c] word = none := by
  induction word with
  | nil => rfl
  | cons d word ih =>
    rw [List.mem_cons, not_or] at h
    rw [cut?, ih h.2, if_neg]
    · rfl
    · simp [List.isPrefixOf, h.1]

theorem cut?_append (h : c ∉ word) : cut? [c] (word ++ c :: rest) = some (word, rest) := by
  induction word with
  | nil => simp [cut?, List.isPrefixOf]
  | cons d word ih =>
    rw [List.mem_cons, not_or] at h
    rw [List.cons_append, cut?, ih h.2, if_neg]
    · rfl
    · simp [List.isPrefixOf, h.1]

theorem pieces_of_notMem (h : c ∉ word) : pieces [c] word = [word] := by
  rw [pieces]
  split
  · rfl
  · next hcut =>
    rw [cut?_of_notMem h] at hcut
    cases hcut

theorem pieces_append (h : c ∉ word) : pieces [c] (word ++ c :: rest) = word :: pieces [c] rest := by
  rw [pieces]
  split
  · next hcut =>
    rw [cut?_append h] at hcut
    cases hcut
  · next before after hcut =>
    rw [cut?_append h] at hcut
    obtain ⟨rfl, rfl⟩ := Prod.mk.inj (Option.some.inj hcut)
    rfl

/-- The character does not occur in the pieces between its occurrences. -/
theorem notMem_of_mem_pieces {piece : List Char} (hmem : piece ∈ pieces [c] cs) : c ∉ piece := by
  induction hlength : cs.length using Nat.strong_induction_on generalizing cs with
  | _ n ih =>
    by_cases hc : c ∈ cs
    · obtain ⟨word, rest, rfl, hword⟩ := List.eq_append_cons_of_mem hc
      rw [pieces_append hword, List.mem_cons] at hmem
      rcases hmem with rfl | hmem
      · exact hword
      · refine ih rest.length ?_ hmem rfl
        rw [← hlength, List.length_append, List.length_cons]
        omega
    · rw [pieces_of_notMem hc, List.mem_singleton] at hmem
      exact hmem ▸ hc

theorem notMem_of_mem_splitAt_slash {text piece : String} (hmem : piece ∈ splitAt "/" text) :
    '/' ∉ piece.toList := by
  obtain ⟨cs, hcs, rfl⟩ := List.mem_map.mp hmem
  rw [String.toList_ofList]
  exact notMem_of_mem_pieces hcs

/-- Joined parts are split again. -/
theorem splitAt_intercalate_slash {part : String} {parts : List String}
    (h : ∀ p ∈ part :: parts, '/' ∉ p.toList) :
    splitAt "/" ("/".intercalate (part :: parts)) = part :: parts := by
  have hslash : "/".toList = ['/'] := rfl
  induction parts generalizing part with
  | nil =>
    rw [String.intercalate_singleton, splitAt, hslash, pieces_of_notMem (h part List.mem_cons_self)]
    rw [List.map_cons, List.map_nil, String.ofList_toList]
  | cons next parts ih =>
    have hrest := ih fun p hp => h p (List.mem_cons_of_mem part hp)
    rw [splitAt, hslash] at hrest ⊢
    rw [String.intercalate_cons_cons, String.toList_append, String.toList_append, hslash,
      List.append_assoc, List.singleton_append, pieces_append (h part List.mem_cons_self),
      List.map_cons, String.ofList_toList, hrest]

end Text

/-! ## The path of a place -/

namespace Path

/-- A part of a path that stands for something inside of a directory. -/
structure IsPart (part : String) : Prop where
  ne_empty : part ≠ ""
  ne_dot : part ≠ "."
  ne_dots : part ≠ ".."
  no_slash : '/' ∉ part.toList

/-- The path of a place from the root. -/
def ofPlace (place : List String) : String :=
  "/" ++ "/".intercalate place

/-- What the paths of the places inside of a place begin with. -/
def inside (place : List String) : String :=
  "/" ++ String.join (place.map (· ++ "/"))

theorem ofPlace_append {place below : List String} (hne : below ≠ []) :
    ofPlace (place ++ below) = inside place ++ "/".intercalate below := by
  have hjoin : "/".intercalate (place ++ below) =
      String.join (place.map (· ++ "/")) ++ "/".intercalate below := by
    induction place with
    | nil => rw [List.nil_append, List.map_nil, String.join_nil, String.empty_append]
    | cons part place ih =>
      rw [List.cons_append, String.intercalate_cons_of_ne_nil (List.append_ne_nil_of_right_ne_nil _ hne),
        ih, List.map_cons, String.join_cons]
      simp only [String.append_assoc]
  rw [ofPlace, inside, hjoin, String.append_assoc]

theorem ofPlace_append_part (place : List String) (part : String) :
    ofPlace (place ++ [part]) = inside place ++ part := by
  rw [ofPlace_append (List.cons_ne_nil part []), String.intercalate_singleton]

theorem inside_append (place : List String) (part : String) :
    inside (place ++ [part]) = ofPlace (place ++ [part]) ++ "/" := by
  rw [ofPlace_append_part, inside, inside, List.map_append, String.join_append, List.map_cons,
    List.map_nil, String.join_cons, String.join_nil, String.append_empty]
  simp only [String.append_assoc]

theorem exists_inside_eq (place : List String) : ∃ text, inside place = text ++ "/" := by
  rcases List.eq_nil_or_concat' place with rfl | ⟨above, part, rfl⟩
  · exact ⟨"", rfl⟩
  · exact ⟨_, inside_append above part⟩

theorem IsPart.reverse_ne_nil {part : String} (h : IsPart part) : part.toList.reverse ≠ [] := by
  intro hnil
  rw [List.reverse_eq_nil_iff] at hnil
  exact h.ne_empty (String.toList_inj.mp hnil)

theorem IsPart.reverse_ne_slash {part : String} (h : IsPart part) :
    ∀ c ∈ part.toList.reverse, (c != '/') = true := by
  intro c hc
  rw [bne_iff_ne]
  rintro rfl
  exact h.no_slash (List.mem_reverse.mp hc)

theorem trimReversed_slash {cs : List Char} (hne : cs ≠ []) :
    trimReversed ('/' :: cs) = trimReversed cs := by
  cases cs with
  | nil => exact absurd rfl hne
  | cons c cs => simp [trimReversed]

/-- Nothing is trimmed from a path that ends in a part. -/
theorem trimReversed_append {part : String} (h : IsPart part) (cs : List Char) :
    trimReversed (part.toList.reverse ++ cs) = part.toList.reverse ++ cs := by
  have hslash := h.reverse_ne_slash
  have hdot : part.toList.reverse ≠ ['.'] := by
    intro hreverse
    rw [List.reverse_eq_iff] at hreverse
    exact h.ne_dot (String.toList_inj.mp hreverse)
  match part.toList.reverse, h.reverse_ne_nil, hslash, hdot with
  | [c], _, hslash, hdot =>
    have hc : c ≠ '/' := by simpa using hslash c
    have hc' : c ≠ '.' := by simpa using hdot
    simp [trimReversed, hc, hc']
  | c :: d :: rest, _, hslash, _ =>
    have hc : c ≠ '/' := by simpa using hslash c
    have hd : d ≠ '/' := by simpa using hslash d
    simp [trimReversed, hc, hd]

section Cutting

variable {above : List String} {last : String}

theorem cutLast?_ofPlace (h : IsPart last) :
    cutLast? (ofPlace (above ++ [last])) = some (inside above, last) := by
  obtain ⟨text, htext⟩ := exists_inside_eq above
  have hreverse : (ofPlace (above ++ [last])).toList.reverse =
      last.toList.reverse ++ '/' :: text.toList.reverse := by
    rw [ofPlace_append_part, htext]
    simp
  have hname : (last.toList.reverse ++ '/' :: text.toList.reverse).takeWhile (· != '/') =
      last.toList.reverse := by
    rw [List.takeWhile_append_of_pos h.reverse_ne_slash, List.takeWhile_cons_of_neg (by decide),
      List.append_nil]
  have hbefore : (last.toList.reverse ++ '/' :: text.toList.reverse).dropWhile (· != '/') =
      '/' :: text.toList.reverse := by
    rw [List.dropWhile_append_of_pos h.reverse_ne_slash, List.dropWhile_cons_of_neg (by decide)]
  have hnonempty : ¬(last.toList.reverse ++ '/' :: text.toList.reverse = [] ∨
      last.toList.reverse ++ '/' :: text.toList.reverse = ['/']) := by
    have hne := h.reverse_ne_nil
    rintro (hnil | hroot)
    · exact hne (List.append_eq_nil_iff.mp hnil).1
    · cases hlast : last.toList.reverse with
      | nil => exact hne hlast
      | cons c cs =>
        rw [hlast, List.cons_append] at hroot
        exact List.append_ne_nil_of_right_ne_nil _ (List.cons_ne_nil _ _) (List.cons.inj hroot).2
  rw [cutLast?, hreverse, trimReversed_append h]
  simp only [if_neg hnonempty, hname, hbefore]
  rw [htext]
  simp

theorem fileName?_ofPlace (h : IsPart last) : fileName? (ofPlace (above ++ [last])) = some last := by
  rw [fileName?, cutLast?_ofPlace h]
  exact if_neg (not_or.mpr ⟨h.ne_dot, h.ne_dots⟩)

theorem parent?_ofPlace (habove : ∀ p ∈ above, IsPart p) (h : IsPart last) :
    parent? (ofPlace (above ++ [last])) = some (ofPlace above) := by
  rw [parent?, cutLast?_ofPlace h, Option.map_some]
  rcases List.eq_nil_or_concat' above with rfl | ⟨above, part, rfl⟩
  · rfl
  · have hpart := habove part (List.mem_append_right above List.mem_cons_self)
    have htrim : trimReversed (inside (above ++ [part])).toList.reverse =
        (ofPlace (above ++ [part])).toList.reverse := by
      have hslash : "/".toList.reverse = ['/'] := rfl
      have hne := List.append_ne_nil_of_left_ne_nil hpart.reverse_ne_nil
      rw [inside_append, ofPlace_append_part]
      simp only [String.toList_append, List.reverse_append, hslash, List.singleton_append]
      rw [trimReversed_slash (hne _), trimReversed_append hpart]
    simp only [htrim, List.reverse_reverse, String.ofList_toList]

theorem withExtension_ofPlace (h : IsPart last) (hdot : '.' ∉ last.toList) (extension : String) :
    withExtension (ofPlace (above ++ [last])) extension =
      ofPlace (above ++ [last ++ "." ++ extension]) := by
  have hstem : stem? (ofPlace (above ++ [last])) = some last := by
    have hall : ∀ c ∈ last.toList.reverse, (c != '.') = true := by
      intro c hc
      rw [bne_iff_ne]
      rintro rfl
      exact hdot (List.mem_reverse.mp hc)
    have hdrop : last.toList.reverse.dropWhile (· != '.') = [] := List.dropWhile_eq_nil_iff.mpr hall
    rw [stem?, fileName?_ofPlace h, Option.map_some, splitName]
    simp only [hdrop]
  have hpath : ofPlace (above ++ [last ++ "." ++ extension]) =
      inside above ++ last ++ "." ++ extension := by
    rw [ofPlace_append_part, ← String.append_assoc, ← String.append_assoc]
  rw [withExtension, cutLast?_ofPlace h, hstem, hpath]

end Cutting

/-! ## Adding parts -/

theorem startsWith_slash_append {part : String} (h : IsPart part) (text : String) :
    Text.startsWith "/" (part ++ text) = false := by
  have hslash : "/".toList = ['/'] := rfl
  rw [Text.startsWith, String.toList_append, hslash]
  cases hpart : part.toList with
  | nil => exact absurd (String.toList_inj.mp hpart) h.ne_empty
  | cons c cs =>
    have hc : '/' ≠ c := by
      rintro rfl
      exact h.no_slash (hpart ▸ List.mem_cons_self)
    simp [List.isPrefixOf, hc]

theorem endsWith_slash_append {part : String} (h : IsPart part) (text : String) :
    Text.endsWith "/" (text ++ part) = false := by
  have hslash : "/".toList = ['/'] := rfl
  rw [Text.endsWith, String.toList_append, hslash, List.isSuffixOf, List.reverse_append]
  cases hpart : part.toList.reverse with
  | nil => exact absurd hpart h.reverse_ne_nil
  | cons c cs =>
    have hc : '/' ≠ c := by
      have hne := h.reverse_ne_slash c (hpart ▸ List.mem_cons_self)
      exact (bne_iff_ne.mp hne).symm
    simp [List.isPrefixOf, hc]

/-- A relative path is put behind the path of a place. -/
theorem join_ofPlace {place : List String} (hplace : ∀ p ∈ place, IsPart p) {path : String}
    (hpath : Text.startsWith "/" path = false) :
    join (ofPlace place) path = inside place ++ path := by
  rw [join, hpath]
  rcases List.eq_nil_or_concat' place with rfl | ⟨above, part, rfl⟩
  · rfl
  · have hpart := hplace part (List.mem_append_right above List.mem_cons_self)
    have hend : Text.endsWith "/" (ofPlace (above ++ [part])) = false := by
      rw [ofPlace_append_part]
      exact endsWith_slash_append hpart _
    have hne : ofPlace (above ++ [part]) ≠ "" := by
      intro hempty
      exact hpart.ne_empty (String.append_eq_empty_iff.mp (ofPlace_append_part _ _ ▸ hempty)).2
    simp only [hend, hne, Bool.false_eq_true, or_self, if_false, inside_append]

theorem IsPart.startsWith_slash {part : String} (h : IsPart part) :
    Text.startsWith "/" part = false := by
  have happend := startsWith_slash_append h ""
  rwa [String.append_empty] at happend

theorem IsPart.endsWith_slash {part : String} (h : IsPart part) :
    Text.endsWith "/" part = false := by
  have happend := endsWith_slash_append h ""
  rwa [String.empty_append] at happend

/-- A part behind the path of a place is a part behind the place. -/
theorem join_part {place : List String} (hplace : ∀ p ∈ place, IsPart p) {part : String}
    (hpart : IsPart part) : join (ofPlace place) part = ofPlace (place ++ [part]) := by
  rw [join_ofPlace hplace hpart.startsWith_slash, ofPlace_append_part]

/-- Two parts behind the path of a place are two parts behind the place. -/
theorem join_parts {place : List String} (hplace : ∀ p ∈ place, IsPart p) {part inner : String}
    (hpart : IsPart part) (hinner : IsPart inner) :
    join (ofPlace place) (join (join "" part) inner) = ofPlace (place ++ [part, inner]) := by
  have hfirst : join "" part = part := by
    rw [join, hpart.startsWith_slash]
    exact String.empty_append
  have hboth : join part inner = part ++ "/" ++ inner := by
    rw [join, hinner.startsWith_slash, hpart.endsWith_slash]
    simp [hpart.ne_empty]
  rw [hfirst, hboth, join_ofPlace hplace, ofPlace_append (List.cons_ne_nil _ _)]
  · rw [String.intercalate_cons_cons, String.intercalate_singleton]
  · rw [String.append_assoc]
    exact startsWith_slash_append hpart _

theorem splitAt_ofPlace {place : List String} (hplace : ∀ p ∈ place, IsPart p) (hne : place ≠ []) :
    Text.splitAt "/" (ofPlace place) = "" :: place := by
  have hpath : ofPlace place = "/".intercalate ("" :: place) := by
    rw [String.intercalate_cons_of_ne_nil hne, String.empty_append, ofPlace]
  rw [hpath, Text.splitAt_intercalate_slash]
  rw [List.forall_mem_cons]
  exact ⟨List.not_mem_nil, fun p hp => (hplace p hp).no_slash⟩

end Path

/-! ## Following paths -/

namespace FileTree

open StagedScript.Path (IsPart ofPlace)

variable {t : FileTree} {place start : List String} {part : String}

/-- The parts of the place stand for something, and those in front of the last one for
directories. -/
structure Reached (t : FileTree) (place : List String) : Prop where
  parts : ∀ p ∈ place, IsPart p
  follow : t.follow [] place = .ok place

theorem reached_nil (t : FileTree) : t.Reached [] :=
  ⟨List.forall_mem_nil _, rfl⟩

theorem find_eq_ok {path : String} {node : FileNode} :
    t.find path = .ok (place, node) ↔ t.place path = .ok place ∧ t.node? place = some node := by
  constructor
  · intro hfind
    rw [find] at hfind
    cases hplace : t.place path with
    | error e =>
      rw [hplace] at hfind
      cases hfind
    | ok found =>
      rw [hplace] at hfind
      cases hnode : t.node? found with
      | none => simp [bind, Except.bind, hnode, throw, throwThe, MonadExceptOf.throw] at hfind
      | some other =>
        simp only [bind, Except.bind, hnode, pure, Except.pure, Except.ok.injEq,
          Prod.mk.injEq] at hfind
        obtain ⟨rfl, rfl⟩ := hfind
        exact ⟨rfl, hnode⟩
  · rintro ⟨hplace, hnode⟩
    simp only [find, hplace, bind, Except.bind, hnode, pure, Except.pure]

theorem follow_append (start parts more : List String) :
    t.follow start (parts ++ more) = t.follow start parts >>= fun place => t.follow place more := by
  induction parts generalizing start with
  | nil => rfl
  | cons part parts ih =>
    rw [List.cons_append, follow, follow]
    cases t.node? start with
    | none => rfl
    | some node =>
      cases node with
      | file bytes => rfl
      | directory =>
        by_cases hstay : part = "" ∨ part = "."
        · simp only [if_pos hstay, ih]
        · by_cases hup : part = ".."
          · simp only [if_neg hstay, if_pos hup, ih]
          · simp only [if_neg hstay, if_neg hup, ih]

/-- A part leads from a directory to a place inside of it, and from no other place. -/
theorem follow_part (hpart : IsPart part) {inner : List String} :
    t.follow place [part] = .ok inner ↔ t.isDirectoryAt place = true ∧ inner = place ++ [part] := by
  rw [follow, isDirectoryAt]
  cases t.node? place with
  | none => exact ⟨nofun, nofun⟩
  | some node =>
    cases node with
    | file bytes => exact ⟨nofun, nofun⟩
    | directory =>
      have hstay : ¬(part = "" ∨ part = ".") := not_or.mpr ⟨hpart.ne_empty, hpart.ne_dot⟩
      simp only [if_neg hstay, if_neg hpart.ne_dots, follow, Except.ok.injEq, true_and, eq_comm]

/-- Parts that stand for something lead straight on. -/
theorem eq_of_follow {parts : List String} (hparts : ∀ p ∈ parts, IsPart p)
    (hfollow : t.follow start parts = .ok place) : place = start ++ parts := by
  induction parts generalizing start with
  | nil =>
    obtain rfl := Except.ok.inj hfollow
    exact (List.append_nil _).symm
  | cons part parts ih =>
    rw [List.forall_mem_cons] at hparts
    rw [← List.singleton_append, follow_append] at hfollow
    cases hfirst : t.follow start [part] with
    | error e =>
      rw [hfirst] at hfollow
      exact nomatch hfollow
    | ok next =>
      rw [hfirst] at hfollow
      obtain ⟨-, rfl⟩ := (follow_part hparts.1).mp hfirst
      rw [ih hparts.2 hfollow, List.append_assoc, List.singleton_append]

/-- The path of a place is followed from the root. -/
theorem place_ofPlace (hplace : ∀ p ∈ place, IsPart p) (hne : place ≠ []) :
    t.place (ofPlace place) = t.follow [] place := by
  have hpath : ofPlace place ≠ "" := by
    intro hempty
    exact nomatch (String.append_eq_empty_iff.mp hempty).1
  rw [FileTree.place, if_neg hpath, Path.splitAt_ofPlace hplace hne]
  rfl

namespace Reached

theorem append (h : t.Reached place) (hdirectory : t.isDirectoryAt place = true)
    (hpart : IsPart part) : t.Reached (place ++ [part]) where
  parts p hp := by
    rcases List.mem_append.mp hp with hp | hp
    · exact h.parts p hp
    · exact List.mem_singleton.mp hp ▸ hpart
  follow := by
    rw [follow_append, h.follow]
    exact (follow_part hpart).mpr ⟨hdirectory, rfl⟩

/-- What the last part lies in is a directory that is reached. -/
theorem above {above : List String} (h : t.Reached (above ++ [part])) :
    t.Reached above ∧ t.isDirectoryAt above = true := by
  have habove : ∀ p ∈ above, IsPart p := fun p hp => h.parts p (List.mem_append_left _ hp)
  have hpart : IsPart part := h.parts part (List.mem_append_right _ List.mem_cons_self)
  have hfollow := h.follow
  rw [follow_append] at hfollow
  cases hfirst : t.follow [] above with
  | error e =>
    rw [hfirst] at hfollow
    exact nomatch hfollow
  | ok place =>
    rw [hfirst] at hfollow
    obtain rfl : place = above := eq_of_follow habove hfirst
    exact ⟨⟨habove, hfirst⟩, ((follow_part hpart).mp hfollow).1⟩

theorem dropLast (h : t.Reached place) : t.Reached place.dropLast := by
  rcases List.eq_nil_or_concat' place with rfl | ⟨above, part, rfl⟩
  · exact reached_nil t
  · rw [List.dropLast_concat]
    exact h.above.1

/-- A path that is followed from a place that is reached leads to one that is reached. -/
theorem of_follow {parts : List String} (h : t.Reached start)
    (hparts : ∀ p ∈ parts, '/' ∉ p.toList) (hfollow : t.follow start parts = .ok place) :
    t.Reached place := by
  induction parts generalizing start with
  | nil =>
    obtain rfl := Except.ok.inj hfollow
    exact h
  | cons part parts ih =>
    rw [List.forall_mem_cons] at hparts
    rw [FileTree.follow] at hfollow
    cases hnode : t.node? start with
    | none =>
      rw [hnode] at hfollow
      exact nomatch hfollow
    | some node =>
      rw [hnode] at hfollow
      cases node with
      | file bytes => exact nomatch hfollow
      | directory =>
        by_cases hstay : part = "" ∨ part = "."
        · simp only [if_pos hstay] at hfollow
          exact ih h hparts.2 hfollow
        · by_cases hup : part = ".."
          · simp only [if_neg hstay, if_pos hup] at hfollow
            exact ih h.dropLast hparts.2 hfollow
          · simp only [if_neg hstay, if_neg hup] at hfollow
            have hpart : IsPart part :=
              ⟨fun h => hstay (.inl h), fun h => hstay (.inr h), hup, hparts.1⟩
            have hdirectory : t.isDirectoryAt start = true := by rw [isDirectoryAt, hnode]
            exact ih (h.append hdirectory hpart) hparts.2 hfollow

/-- Where a path leads to is reached if the directory that relative paths start from is. -/
theorem of_find {path : String} {node : FileNode} (hhome : t.Reached t.home)
    (hfind : t.find path = .ok (place, node)) : t.Reached place := by
  have hplace := (find_eq_ok.mp hfind).1
  have hpieces : ∀ p ∈ Text.splitAt "/" path, '/' ∉ p.toList :=
    fun p hp => Text.notMem_of_mem_splitAt_slash hp
  rw [FileTree.place] at hplace
  split at hplace
  · exact nomatch hplace
  · split at hplace
    · next rest hsplit =>
      rw [hsplit, List.forall_mem_cons] at hpieces
      exact (reached_nil t).of_follow hpieces.2 hplace
    · exact hhome.of_follow hpieces hplace

/-- The path of a place leads to it. -/
theorem find_ofPlace (h : t.Reached place) (hne : place ≠ []) {node : FileNode}
    (hnode : t.node? place = some node) : t.find (ofPlace place) = .ok (place, node) := by
  rw [find_eq_ok, place_ofPlace h.parts hne]
  exact ⟨h.follow, hnode⟩

end Reached

/-- The path of a place inside of something that is no directory leads nowhere. -/
theorem isFile_inside (hplace : ∀ p ∈ place, IsPart p) (hpart : IsPart part)
    (hdirectory : t.isDirectoryAt place = false) :
    t.isFile (ofPlace (place ++ [part])) = false := by
  have hparts : ∀ p ∈ place ++ [part], IsPart p := by
    intro p hp
    rcases List.mem_append.mp hp with hp | hp
    · exact hplace p hp
    · exact List.mem_singleton.mp hp ▸ hpart
  have hnone (inner : List String) : t.follow [] (place ++ [part]) ≠ .ok inner := by
    intro hfollow
    have hreached := (Reached.above ⟨hparts, eq_of_follow hparts hfollow ▸ hfollow⟩).2
    rw [hdirectory] at hreached
    exact Bool.noConfusion hreached
  rw [isFile, find, place_ofPlace hparts (List.append_ne_nil_of_right_ne_nil _ (List.cons_ne_nil _ _))]
  cases hfollow : t.follow [] (place ++ [part]) with
  | error e => rfl
  | ok inner => exact absurd hfollow (hnone inner)

end FileTree

end StagedScript
