import StagedScript.Proofs.Syntax.Spelling

/-!
# The tokens of printed texts

Reading a text step by step cuts it into the lexemes that it spells, and the
tokens of a text of one line are these lexemes and the marks of its end.
-/

namespace StagedScript.Syntax

open Text

namespace Lexer

/-- Reading on brings these lexemes and no fault. -/
def Lexes (l : Lexer) (ks : List Lexeme) : Prop :=
  l.run.2 = none ∧ l.run.1.map Token.kind = ks

variable {l next : Lexer} {tokens : List Token} {ks ks' : List Lexeme} {cs rest : List Char}

theorem run_more (h : l.step = .more tokens next) :
    l.run = (tokens ++ next.run.1, next.run.2) := by
  rw [run.eq_def]
  split
  · next heq => simp [heq] at h
  · next heq => simp [heq] at h
  · next heq =>
    rw [heq] at h
    cases h
    rfl

theorem run_done (h : l.step = .done tokens) : l.run = (tokens, none) := by
  rw [run.eq_def]
  split
  · next heq =>
    rw [heq] at h
    cases h
    rfl
  · next heq => simp [heq] at h
  · next heq => simp [heq] at h

theorem run_fault {defect : Defect} {span : Span} (h : l.step = .fault tokens defect span) :
    l.run = (tokens, some (.invalid defect span)) := by
  rw [run.eq_def]
  split
  · next heq => simp [heq] at h
  · next heq =>
    rw [heq] at h
    cases h
    rfl
  · next heq => simp [heq] at h

/-- What the steps build up holds of a text that is read to its end. -/
theorem run_induction {P : Lexer → List Token → Prop}
    (done : ∀ l tokens, l.step = .done tokens → P l tokens)
    (more : ∀ l tokens next later, l.step = .more tokens next → P next later →
      P l (tokens ++ later)) (l : Lexer) (h : l.run.2 = none) : P l l.run.1 := by
  cases hl : l.step with
  | done tokens =>
    rw [run_done hl]
    exact done l tokens hl
  | fault tokens defect span =>
    rw [run_fault hl] at h
    nomatch h
  | more tokens next =>
    have hshort := length_step hl
    rw [run_more hl] at h ⊢
    exact more l tokens next next.run.1 hl (run_induction done more next h)
termination_by l.rest.length

theorem run_congr {l' : Lexer} (h : l.step = l'.step) : l.run = l'.run := by
  cases hstep : l'.step with
  | more tokens next => rw [run_more (h.trans hstep), run_more hstep]
  | done tokens => rw [run_done (h.trans hstep), run_done hstep]
  | fault tokens defect span => rw [run_fault (h.trans hstep), run_fault hstep]

theorem Lexes.more (h : l.step = .more tokens next) (hnext : next.Lexes ks) :
    l.Lexes (tokens.map Token.kind ++ ks) := by
  rw [Lexes, run_more h]
  exact ⟨hnext.1, by rw [List.map_append, hnext.2]⟩

theorem advance_advance (l : Lexer) (m n : Nat) : (l.advance m).advance n = l.advance (m + n) := by
  simp only [advance, List.drop_drop, ← Position.past_append, List.take_add]

@[simp]
theorem advance_zero (l : Lexer) : l.advance 0 = l := by
  simp [advance]

/-! ## Inside of a line -/

/-- What a lexeme of a line starts with is no blank space and no comment. -/
theorem solid_of_scan {k : Lexeme} {n : Nat} (scan : scanLexeme cs = ⟨.ok k, n⟩)
    (line : k.keepsLineOpen = true) : ∃ c ds, cs = c :: ds ∧ c ≠ '\n' ∧ c ≠ '#' ∧ c ≠ '\\' ∧
      isIndentation c = false := by
  cases cs with
  | nil =>
    cases scan
    exact Bool.noConfusion line
  | cons c ds =>
    have hfault {d : Char} (hd : ∀ ds, (scanLexeme (d :: ds)).result.toOption = none) : c ≠ d := by
      rintro rfl
      have hnone := hd ds
      rw [scan] at hnone
      exact absurd hnone (by simp [Except.toOption])
    have hnewline : c ≠ '\n' := by
      rintro rfl
      rw [scanLexeme, if_pos rfl] at scan
      cases scan
      exact Bool.noConfusion line
    refine ⟨c, ds, rfl, hnewline, hfault fun _ => rfl, hfault fun _ => rfl, ?_⟩
    have hspace : c ≠ ' ' := hfault fun _ => rfl
    have htab : c ≠ '\t' := hfault fun _ => rfl
    have hreturn : c ≠ '\r' := hfault fun _ => rfl
    simp [isIndentation, hspace, htab, hreturn]

theorem blankLength_of_solid {c : Char} {inBrackets : Bool} (hnewline : c ≠ '\n') (hhash : c ≠ '#')
    (hslash : c ≠ '\\') (hblank : isIndentation c = false) :
    blankLength inBrackets false (c :: cs) = 0 := by
  have hnot : ¬ (c = ' ' ∨ c = '\t' ∨ c = '\r') := by
    simpa [isIndentation, not_or, and_assoc] using hblank
  rw [blankLength.eq_def]
  dsimp only
  rw [if_neg hnewline, if_neg Bool.false_ne_true, if_neg hnot, if_neg hhash]
  split
  · rw [if_neg hslash]
  · rfl

/-- One lexeme of a line after the marks in front of it. -/
theorem token_of_scan {k : Lexeme} {n : Nat} (scan : scanLexeme l.rest = ⟨.ok k, n⟩)
    (line : k.keepsLineOpen = true) (marks : List Token) (lineOpen : Bool) : ∃ next t,
      l.token marks lineOpen = .more (marks ++ [t]) next ∧ t.kind = k ∧
        next.rest = l.rest.drop n ∧ next.indents = l.indents ∧
        next.depth = depthAfter l.depth k ∧ next.atLineStart = false := by
  obtain ⟨c, ds, hrest, hnewline, hhash, hslash, hblank⟩ := solid_of_scan scan line
  have hzero : blankLength (l.depth != 0) false l.rest = 0 := by
    rw [hrest]
    exact blankLength_of_solid hnewline hhash hslash hblank
  have hline : decide (k = .newline) = false := by
    apply decide_eq_false
    rintro rfl
    exact Bool.noConfusion line
  have hscan : scanLexeme (c :: ds) = ⟨.ok k, n⟩ := hrest ▸ scan
  refine ⟨{ l.advance n with depth := depthAfter l.depth k, atLineStart := false },
    ⟨k, .between l.position (l.advance n).position⟩, ?_, rfl, rfl, rfl, rfl, rfl⟩
  rw [token, hzero, advance_zero]
  dsimp only
  split
  · next heq => exact absurd (hrest.symm.trans heq) (List.cons_ne_nil _ _)
  · next c' ds' heq =>
    have hsame : scanLexeme (c' :: ds') = ⟨.ok k, n⟩ := heq ▸ scan
    rw [hsame]
    dsimp only
    rw [hline]

theorem Lexes.blank (hline : l.atLineStart = false) (hrest : l.rest = ' ' :: cs)
    (h : (l.advance 1).Lexes ks) : l.Lexes ks := by
  have hstep : l.step = (l.advance 1).step := by
    have hline' : (l.advance 1).atLineStart = false := hline
    have hrest' : (l.advance 1).rest = cs := by
      rw [rest_advance, hrest]
      rfl
    have hlength : blankLength (l.depth != 0) false (' ' :: cs) =
        1 + blankLength (l.depth != 0) false cs := by
      rw [blankLength.eq_def]
      dsimp only
      rw [if_neg (by decide), if_neg Bool.false_ne_true, if_pos (.inl rfl), Nat.add_comm]
    rw [step, step, hline, hline', if_neg Bool.false_ne_true, if_neg Bool.false_ne_true, token,
      token, hrest, hrest', hlength, ← advance_advance]
    rfl
  rw [Lexes, run_congr hstep]
  exact h

/-- The lexemes of a line are read one after another. -/
theorem Lexes.cuts (h : Cuts cs ks rest) (hline : l.atLineStart = false) (hrest : l.rest = cs)
    (hnext : ∀ next : Lexer, next.rest = rest → next.indents = l.indents →
      next.depth = ks.foldl depthAfter l.depth → next.atLineStart = false → next.Lexes ks') :
    l.Lexes (ks ++ ks') := by
  induction h generalizing l with
  | nil => exact hnext l hrest rfl rfl hline
  | blank _ ih =>
    apply Lexes.blank hline hrest
    apply ih
    · exact hline
    · rw [rest_advance, hrest]
      rfl
    · exact hnext
  | cons scan _ line _ ih =>
    obtain ⟨next, t, htoken, ht, hrest', hindents, hdepth, hline'⟩ :=
      token_of_scan (hrest ▸ scan) line [] true
    have hstep : l.step = .more [t] next := by
      rw [step, hline]
      exact htoken
    have hlexes := ih (l := next) hline' (hrest'.trans (hrest ▸ rfl)) fun last h1 h2 h3 h4 =>
      hnext last h1 (h2.trans hindents) (h3.trans (by rw [hdepth]; rfl)) h4
    have hmore := hlexes.more hstep
    rw [List.map_cons, List.map_nil, ht] at hmore
    exact hmore

/-! ## The start of a line -/

theorem takeWhile_isIndentation {c : Char} (hc : isIndentation c = false) (n : Nat) :
    (List.replicate n ' ' ++ c :: cs).takeWhile isIndentation = List.replicate n ' ' := by
  rw [List.takeWhile_append_of_pos]
  · rw [List.takeWhile_cons_of_neg (by simp [hc]), List.append_nil]
  · intro d hd
    rw [List.eq_of_mem_replicate hd]
    rfl

theorem emptyLinesLength_of_solid {c : Char} (hc : isIndentation c = false) (hnewline : c ≠ '\n')
    (n : Nat) : emptyLinesLength (List.replicate n ' ' ++ c :: cs) = 0 := by
  have hdrop : (List.replicate n ' ' ++ c :: cs).drop (List.replicate n ' ').length = c :: cs :=
    List.drop_left
  rw [emptyLinesLength.eq_def]
  dsimp only
  split
  · next rest heq =>
    rw [takeWhile_isIndentation hc, hdrop] at heq
    exact absurd (List.cons.inj heq).1 hnewline
  · rfl

theorem indentWidth_replicate (n : Nat) : indentWidth (List.replicate n ' ') = n := by
  have hfold : ∀ m, (List.replicate n ' ').foldl
      (fun width c => width + if c = ' ' then 1 else if c = '\t' then 4 else 0) m = m + n := by
    induction n with
    | zero => exact fun _ => rfl
    | succ n ih =>
      intro m
      rw [List.replicate_succ, List.foldl_cons, ih, if_pos rfl]
      omega
  rw [indentWidth, hfold, Nat.zero_add]

/-- The first lexeme of a line after its indentation. -/
theorem step_of_scan {k : Lexeme} {n m : Nat} {marks : List Lexeme} {indents : List Nat}
    (hline : l.atLineStart = true) (hrest : l.rest = List.replicate m ' ' ++ cs)
    (scan : scanLexeme cs = ⟨.ok k, n⟩) (line : k.keepsLineOpen = true)
    (hlayout : l.layout m = .ok (marks, indents)) : ∃ tokens next,
      l.step = .more tokens next ∧ tokens.map Token.kind = marks ++ [k] ∧
        next.rest = cs.drop n ∧ next.indents = indents ∧ next.depth = depthAfter l.depth k ∧
        next.atLineStart = false := by
  obtain ⟨c, ds, rfl, hnewline, hhash, -, hblank⟩ := solid_of_scan scan line
  have hempty : emptyLinesLength l.rest = 0 := by
    rw [hrest]
    exact emptyLinesLength_of_solid hblank hnewline m
  have hblanks : l.rest.takeWhile isIndentation = List.replicate m ' ' := by
    rw [hrest]
    exact takeWhile_isIndentation hblank m
  have hstart : (l.advance m).rest = c :: ds := by
    rw [rest_advance, hrest]
    exact List.drop_left' (List.length_replicate ..)
  let start := { l.advance m with indents := indents }
  have hscan : scanLexeme start.rest = ⟨.ok k, n⟩ := by
    show scanLexeme (l.advance m).rest = _
    rw [hstart]
    exact scan
  obtain ⟨next, t, htoken, ht, hnextRest, hnextIndents, hnextDepth, hnextLine⟩ :=
    token_of_scan hscan line (marks.map (⟨·, (l.advance m).here⟩)) false
  refine ⟨marks.map (⟨·, (l.advance m).here⟩) ++ [t], next, ?_, ?_, ?_, hnextIndents, hnextDepth,
    hnextLine⟩
  · rw [step, hline, if_pos rfl, hempty, advance_zero]
    dsimp only
    rw [hblanks, List.length_replicate]
    split
    · next heq => exact absurd (hstart.symm.trans heq) (List.cons_ne_nil _ _)
    · next c' ds' heq =>
      obtain ⟨rfl, -⟩ := List.cons.inj (hstart.symm.trans heq)
      have hwidth : (l.advance m).layout m = .ok (marks, indents) := hlayout
      rw [if_neg hhash, indentWidth_replicate, hwidth]
      exact htoken
  · rw [List.map_append, List.map_map, List.map_cons, List.map_nil, ht]
    simp [Function.comp_def]
  · rw [hnextRest, ← hstart]

/-- The end of the text in a line that is still open. -/
theorem lexes_end (hline : l.atLineStart = false) (hrest : l.rest = []) :
    l.Lexes (.newline :: (List.replicate l.indents.length .dedent ++ [.eof])) := by
  have hstep : l.step = .done (l.closing true) := by
    have hblank : blankLength (l.depth != 0) false [] = 0 := by
      rw [blankLength.eq_def]
    rw [step, hline, if_neg Bool.false_ne_true, token, hrest, hblank, advance_zero]
    dsimp only
    split
    · rfl
    · next heq => exact absurd (hrest.symm.trans heq) (List.cons_ne_nil _ _).symm
  rw [Lexes, run_done hstep]
  exact ⟨rfl, by simp [closing]⟩

/-- A text of one line that spells lexemes. -/
theorem lexes_of_spells {text : List Char} (h : Spells text ks) (hne : ks ≠ [])
    (hline : l.atLineStart = true) (hindents : l.indents = []) (hrest : l.rest = text) :
    l.Lexes (ks ++ [.newline, .eof]) := by
  obtain ⟨c, ds, rfl⟩ := List.exists_cons_of_ne_nil (h.ne_nil hne)
  have hcuts := h.cuts [] rfl
  rw [List.append_nil] at hcuts
  obtain ⟨k, n, ks₀, rfl, hscan, hopen, hcuts'⟩ :=
    hcuts.first (fun heq => h.solid (heq ▸ rfl)) hne
  have hlayout : l.layout 0 = .ok ([], []) := by
    simp [layout, width, hindents]
  obtain ⟨tokens, next, hstep, htokens, hnextRest, hnextIndents, -, hnextLine⟩ :=
    step_of_scan (m := 0) hline hrest hscan hopen hlayout
  have hlexes : next.Lexes (ks₀ ++ [.newline, .eof]) := by
    apply Lexes.cuts hcuts' hnextLine hnextRest
    intro last hlast hlastIndents _ hlastLine
    have hend := lexes_end hlastLine hlast
    rw [hlastIndents, hnextIndents] at hend
    exact hend
  have hmore := hlexes.more hstep
  rw [htokens] at hmore
  exact hmore

end Lexer

/-- The tokens of a text that is read as lexemes. -/
theorem tokens_of_lexes {text : String} {ks : List Lexeme} (h : (Lexer.start text).Lexes ks) :
    ∃ ts, tokens text = .ok ts ∧ ts.map Token.kind = ks := by
  refine ⟨(readTokens text).1, ?_, h.2⟩
  have hnone : (readTokens text).2 = none := h.1
  rw [tokens]
  split
  · next heq => rw [heq]
  · next heq =>
    rw [heq] at hnone
    exact absurd hnone (by simp)

/-- The tokens of a text that spells lexemes. -/
theorem tokens_of_spells {text : String} {ks : List Lexeme} (h : Spells text.toList ks)
    (hne : ks ≠ []) : ∃ ts, tokens text = .ok ts ∧ ts.map Token.kind = ks ++ [.newline, .eof] :=
  tokens_of_lexes (Lexer.lexes_of_spells h hne rfl rfl rfl)

end StagedScript.Syntax
