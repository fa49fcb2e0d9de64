import Mathlib.Data.List.DropRight
import StagedScript.Proofs.Decimal.Double
import StagedScript.Proofs.Syntax.Lexing

/-!
# The tokens of any text

Whatever the text, its names are names, its numbers have no sign, its comments
have one line without blank space at its end, the end mark stands at its end and
nowhere else, and there are at most three tokens for each character and two more.
-/

namespace StagedScript.Syntax

open Text

/-- What the kind of a token of any text satisfies. -/
def Lexeme.Proper : Lexeme → Prop
  | .identifier name => isName name = true
  | .float x => Decimal.isNegative x = false
  | .comment text => IsCommentText text
  | _ => True

/-- The tokens end with the end mark, and the others are no end marks and satisfy the condition. -/
inductive Complete (admits : Lexeme → Prop) : List Token → Prop
  | last (span : Span) : Complete admits [⟨.eof, span⟩]
  | cons {k : Lexeme} {span : Span} {ts : List Token} (inside : k ≠ .eof) (admitted : admits k) :
    Complete admits ts → Complete admits (⟨k, span⟩ :: ts)

namespace Complete

variable {admits admits' : Lexeme → Prop} {ts us : List Token}

theorem append (h : Complete admits us) (hts : ∀ t ∈ ts, t.kind ≠ .eof ∧ admits t.kind) :
    Complete admits (ts ++ us) := by
  induction ts with
  | nil => exact h
  | cons t ts ih =>
    obtain ⟨hfirst, hothers⟩ := List.forall_mem_cons.mp hts
    exact .cons hfirst.1 hfirst.2 (ih hothers)

theorem mono (h : Complete admits ts) (himp : ∀ t ∈ ts, admits t.kind → admits' t.kind) :
    Complete admits' ts := by
  induction h with
  | last span => exact .last span
  | cons inside admitted _ ih =>
    obtain ⟨hfirst, hothers⟩ := List.forall_mem_cons.mp himp
    exact .cons inside (hfirst admitted) (ih hothers)

end Complete

theorem proper_stringLexeme (isFormatted : Bool) (text : List Char) :
    (stringLexeme isFormatted text).Proper := by
  cases isFormatted <;> trivial

theorem proper_wordLexeme {word : List Char} (hstart : word.head?.any isNameStart = true)
    (hparts : word.all isNamePart = true) : (wordLexeme word).Proper := by
  unfold wordLexeme
  dsimp only
  split
  · trivial
  · next hnone =>
    have htext : (String.ofList word).toList = word := String.toList_ofList
    simp only [Lexeme.Proper, isName, htext, hstart, hparts, hnone]
    rfl

theorem proper_of_map_stringLexeme {s : Scan (List Char)} {isFormatted : Bool} {k : Lexeme}
    (h : (s.map (stringLexeme isFormatted)).result = .ok k) : k.Proper ∧ k ≠ .eof := by
  obtain ⟨text, -, rfl⟩ := Scan.exists_of_map h
  exact ⟨proper_stringLexeme isFormatted text, by cases isFormatted <;> exact Lexeme.noConfusion⟩

theorem proper_of_scanWord {c : Char} {cs : List Char} {k : Lexeme} (hc : isNameStart c = true)
    (h : (scanWord (c :: cs)).result = .ok k) : k.Proper ∧ k ≠ .eof := by
  unfold scanWord at h
  dsimp only at h
  split at h
  · exact proper_of_map_stringLexeme h
  · obtain rfl := Except.ok.inj h
    refine ⟨proper_wordLexeme ?_ List.all_takeWhile, ?_⟩
    · rw [List.takeWhile_cons_of_pos (isNamePart_of_isNameStart hc)]
      exact hc
    · unfold wordLexeme
      dsimp only
      split <;> exact Lexeme.noConfusion

theorem proper_of_scanNumber {cs : List Char} {k : Lexeme} (h : (scanNumber cs).result = .ok k) :
    k.Proper ∧ k ≠ .eof := by
  obtain ⟨n, rfl⟩ | ⟨number, rfl⟩ := number_of_scanNumber h
  · exact ⟨trivial, Lexeme.noConfusion⟩
  · exact ⟨Decimal.isNegative_nearest number, Lexeme.noConfusion⟩

theorem proper_of_scan {c : Char} {cs : List Char} {k : Lexeme}
    (h : (scanLexeme (c :: cs)).result = .ok k) : k.Proper ∧ k ≠ .eof := by
  cases scanned_of_scan h with
  | feed kind => exact kind ▸ ⟨trivial, Lexeme.noConfusion⟩
  | word first scan => exact proper_of_scanWord first (scan ▸ h)
  | number scan => exact proper_of_scanNumber (scan ▸ h)
  | string scan => exact proper_of_map_stringLexeme (scan ▸ h)
  | symbol sign kind => exact kind ▸ ⟨trivial, Lexeme.noConfusion⟩

/-! ## One step -/

namespace Lexer

variable {l next : Lexer} {tokens : List Token}

/-- No more tokens than this are still to come. -/
def potential (l : Lexer) : Nat :=
  3 * l.rest.length + l.indents.length + 2

def Inner (tokens : List Token) : Prop :=
  ∀ t ∈ tokens, t.kind ≠ .eof ∧ t.kind.Proper

/-- What a step brings: it gives inner tokens and lowers the potential, or the tokens are
complete. -/
def Step.Sound (potential : Nat) : Step → Prop
  | .more tokens next => Inner tokens ∧ tokens.length + next.potential ≤ potential
  | .done tokens => Complete Lexeme.Proper tokens ∧ tokens.length ≤ potential
  | .fault _ _ _ => True

theorem Step.Sound.mono {potential potential' : Nat} (hle : potential ≤ potential') {s : Step}
    (h : s.Sound potential) : s.Sound potential' := by
  cases s with
  | more tokens next => exact ⟨h.1, Nat.le_trans h.2 hle⟩
  | done tokens => exact ⟨h.1, Nat.le_trans h.2 hle⟩
  | fault tokens defect span => trivial

theorem closing_sound (l : Lexer) (lineOpen : Bool) :
    Complete Lexeme.Proper (l.closing lineOpen) ∧
      (l.closing lineOpen).length ≤ l.indents.length + 2 := by
  unfold closing
  dsimp only
  rw [List.map_append]
  constructor
  · refine Complete.append (.last _) fun t ht => ?_
    obtain ⟨k, hk, rfl⟩ := List.mem_map.mp ht
    rcases List.mem_append.mp hk with hk | hk
    · cases lineOpen with
      | true =>
        obtain rfl := List.mem_singleton.mp hk
        exact ⟨Lexeme.noConfusion, trivial⟩
      | false => exact absurd hk List.not_mem_nil
    · obtain rfl := List.eq_of_mem_replicate hk
      exact ⟨Lexeme.noConfusion, trivial⟩
  · cases lineOpen <;> simp

/-- One token after marks, which are counted with the blocks that are open then. -/
theorem token_sound {marks : List Token} {lineOpen : Bool} (bound : Nat) (hmarks : Inner marks)
    (hbound : marks.length + l.indents.length + 3 * l.rest.length ≤ bound + 2)
    (hend : l.rest = [] → marks.length + l.indents.length ≤ bound) :
    (l.token marks lineOpen).Sound (bound + 2) := by
  generalize hstart : l.advance (blankLength (l.depth != 0) false l.rest) = start
  have hle : start.rest.length ≤ l.rest.length := hstart ▸ length_rest_advance_le _ _
  have hindents : start.indents = l.indents := hstart ▸ rfl
  unfold token
  rw [hstart]
  dsimp only
  split
  · obtain ⟨hcomplete, hlength⟩ := start.closing_sound lineOpen
    refine ⟨hcomplete.append hmarks, ?_⟩
    rw [hindents] at hlength
    rw [List.length_append]
    by_cases hempty : l.rest = []
    · have := hend hempty
      omega
    · have := List.length_pos_iff.mpr hempty
      omega
  · next c cs hrest =>
    split
    · trivial
    · next k hk =>
      obtain ⟨hproper, hinside⟩ := proper_of_scan hk
      have hshort := length_rest_advance_lt start (length_scanLexeme_pos c cs)
        (by rw [hrest]; exact List.cons_ne_nil c cs)
      refine ⟨fun t ht => ?_, ?_⟩
      · rcases List.mem_append.mp ht with ht | ht
        · exact hmarks t ht
        · obtain rfl := List.mem_singleton.mp ht
          exact ⟨hinside, hproper⟩
      · show (marks ++ [_]).length + (3 * (start.advance _).rest.length + start.indents.length + 2)
          ≤ bound + 2
        rw [List.length_append, List.length_singleton, hindents]
        omega

theorem trimEnd_trimEnd (s : String) : trimEnd (trimEnd s) = trimEnd s := by
  simp only [trimEnd, trimEndWhile, String.toList_ofList, List.reverse_reverse,
    List.dropWhile_idempotent]

theorem comment_sound {cs : List Char} (hrest : l.rest = '#' :: cs) :
    l.comment.Sound l.potential := by
  generalize htext : l.rest.takeWhile (· != '\n') = text
  have hlines : ∀ c ∈ text, c ≠ '\n' := by
    intro c hc
    rw [← htext] at hc
    simpa using List.all_eq_true.mp List.all_takeWhile c hc
  have hpos : 0 < text.length := by
    rw [← htext, hrest]
    exact length_takeWhile_pos cs (by decide)
  have hle := length_rest_advance_le (l.advance text.length) 1
  have hlt := length_rest_advance_lt l hpos (by rw [hrest]; exact List.cons_ne_nil _ _)
  unfold comment
  rw [htext]
  refine ⟨fun t ht => ?_, ?_⟩
  · obtain rfl := List.mem_singleton.mp ht
    refine ⟨Lexeme.noConfusion, fun hmem => ?_, trimEnd_trimEnd _⟩
    simp only [trimEnd, trimEndWhile, String.toList_ofList, List.mem_reverse] at hmem
    have htail := List.mem_reverse.mp ((List.dropWhile_suffix _).subset hmem)
    exact hlines _ (List.mem_of_mem_drop htail) rfl
  · show 1 + (3 * ((l.advance text.length).advance 1).rest.length + l.indents.length + 2) ≤
      3 * l.rest.length + l.indents.length + 2
    omega

theorem layout_sound {width : Nat} {marks : List Lexeme} {indents : List Nat}
    (h : l.layout width = .ok (marks, indents)) :
    (∀ k ∈ marks, k ≠ .eof ∧ k.Proper) ∧ marks.length + indents.length ≤ l.indents.length + 2 := by
  unfold layout at h
  split at h
  · obtain ⟨rfl, rfl⟩ := Prod.mk.inj (Except.ok.inj h)
    refine ⟨fun k hk => ?_, by simp only [List.length_cons, List.length_nil]; omega⟩
    obtain rfl := List.mem_singleton.mp hk
    exact ⟨Lexeme.noConfusion, trivial⟩
  · dsimp only at h
    split at h
    · obtain ⟨rfl, rfl⟩ := Prod.mk.inj (Except.ok.inj h)
      refine ⟨fun k hk => ?_, ?_⟩
      · obtain rfl := List.eq_of_mem_replicate hk
        exact ⟨Lexeme.noConfusion, trivial⟩
      · have hle := (List.dropWhile_suffix (l := l.indents) fun w => decide (width < w)).length_le
        rw [List.length_replicate]
        omega
    · nomatch h

theorem step_sound (l : Lexer) : l.step.Sound l.potential := by
  unfold step
  split
  · generalize hline : l.advance (emptyLinesLength l.rest) = line
    generalize hstart : line.advance (line.rest.takeWhile isIndentation).length = start
    have hle : start.rest.length ≤ l.rest.length := by
      rw [← hstart, ← hline]
      exact Nat.le_trans (length_rest_advance_le _ _) (length_rest_advance_le _ _)
    have hindents : start.indents = l.indents := by
      rw [← hstart, ← hline]
      rfl
    dsimp only
    rw [hstart]
    split
    · obtain ⟨hcomplete, hlength⟩ := start.closing_sound false
      rw [hindents] at hlength
      exact ⟨hcomplete, Nat.le_trans hlength (by unfold potential; omega)⟩
    · next c cs hrest =>
      split
      · next hc =>
        refine (start.comment_sound (hrest.trans (by rw [hc]))).mono ?_
        unfold potential
        rw [hindents]
        omega
      · split
        · trivial
        · next marks indents hlayout =>
          obtain ⟨hmarks, hlength⟩ := layout_sound hlayout
          rw [hindents] at hlength
          refine token_sound (3 * l.rest.length + l.indents.length) (fun t ht => ?_) ?_ ?_
          · obtain ⟨k, hk, rfl⟩ := List.mem_map.mp ht
            exact hmarks k hk
          · show (marks.map _).length + indents.length + 3 * start.rest.length ≤ _
            rw [List.length_map]
            omega
          · intro hempty
            exact absurd (hrest.symm.trans hempty) (List.cons_ne_nil c cs)
  · refine token_sound (3 * l.rest.length + l.indents.length) ?_ ?_ ?_
    · exact fun t ht => absurd ht List.not_mem_nil
    · simp only [List.length_nil]
      omega
    · simp only [List.length_nil]
      omega

/-- Reading to the end gives complete tokens, no more than the potential. -/
theorem run_sound (l : Lexer) (h : l.run.2 = none) :
    Complete Lexeme.Proper l.run.1 ∧ l.run.1.length ≤ l.potential := by
  refine run_induction (P := fun l ts => Complete Lexeme.Proper ts ∧ ts.length ≤ l.potential)
    ?done ?more l h
  case done =>
    intro l tokens hl
    have hstep := l.step_sound
    rw [hl] at hstep
    exact hstep
  case more =>
    intro l tokens next later hl ih
    have hstep := l.step_sound
    rw [hl] at hstep
    obtain ⟨hcomplete, hlength⟩ := ih
    refine ⟨hcomplete.append hstep.1, ?_⟩
    have htotal := hstep.2
    rw [List.length_append]
    omega

end Lexer

/-- The tokens of a text. -/
theorem tokens_complete {source : String} {ts : List Token} (h : tokens source = .ok ts) :
    Complete Lexeme.Proper ts ∧ ts.length ≤ 3 * source.length + 2 := by
  unfold tokens at h
  split at h
  · next heq =>
    obtain rfl := Except.ok.inj h
    have hsound := (Lexer.start source).run_sound (by
      show (readTokens source).2 = none
      rw [heq])
    have hrun : (Lexer.start source).run.1 = _ := congrArg Prod.fst heq
    rw [hrun] at hsound
    simpa [Lexer.potential, Lexer.start, String.length_toList] using hsound
  · nomatch h

end StagedScript.Syntax
