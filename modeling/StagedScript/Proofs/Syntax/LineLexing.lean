import StagedScript.Proofs.Syntax.Lexing
import StagedScript.Proofs.Syntax.StatementText

/-!
# The tokens of printed lines

The tokens of the text of printed lines are those of its rows: each line gives
the marks for its indentation, its lexemes and its end.  How wide a level of
indentation is and where blank lines stand does not show in them.
-/

namespace StagedScript.Syntax

open Text

namespace Lexer

variable {l : Lexer} {ks ks' : List Lexeme} {cs rest : List Char}

def openWidths (width : Nat) : Nat → List Nat
  | 0 => []
  | n + 1 => (n + 1) * width :: openWidths width n

theorem length_openWidths (width n : Nat) : (openWidths width n).length = n := by
  induction n with
  | zero => rfl
  | succ n ih => rw [openWidths, List.length_cons, ih]

theorem head_openWidths (width n : Nat) : (openWidths width n).head?.getD 0 = n * width := by
  cases n with
  | zero => simp [openWidths]
  | succ n => rfl

theorem dropWhile_openWidths {width : Nat} (hwidth : 0 < width) {level n : Nat} (hle : level ≤ n) :
    ((openWidths width n).dropWhile fun w => decide (level * width < w)) =
      openWidths width level := by
  induction n with
  | zero =>
    obtain rfl : level = 0 := Nat.le_zero.mp hle
    rfl
  | succ n ih =>
    by_cases heq : level = n + 1
    · subst heq
      rw [openWidths, List.dropWhile_cons_of_neg (by simp)]
    · have hlt : level * width < (n + 1) * width :=
        Nat.mul_lt_mul_of_pos_right (Nat.lt_of_le_of_ne hle heq) hwidth
      rw [openWidths, List.dropWhile_cons, if_pos (by simpa using hlt)]
      exact ih (by omega)

/-- A line opens at most one block or closes blocks. -/
theorem layout_openWidths {width current level : Nat} (hwidth : 0 < width)
    (hindents : l.indents = openWidths width current) (hle : level ≤ current + 1) :
    l.layout (level * width) = .ok (layoutKinds current level, openWidths width level) := by
  have hl : l.width = current * width := by rw [Lexer.width, hindents, head_openWidths]
  by_cases hlt : current < level
  · obtain rfl : level = current + 1 := by omega
    have hopen : current * width < (current + 1) * width :=
      Nat.mul_lt_mul_of_pos_right hlt hwidth
    rw [layout, hl, if_pos hopen, layoutKinds, if_pos hlt, hindents]
    rfl
  · have hge : level ≤ current := Nat.le_of_not_lt hlt
    have hnot : ¬ current * width < level * width :=
      Nat.not_lt.mpr (Nat.mul_le_mul_right width hge)
    rw [layout, hl, if_neg hnot, hindents]
    dsimp only
    rw [dropWhile_openWidths hwidth hge, head_openWidths, if_pos rfl, length_openWidths,
      length_openWidths, layoutKinds, if_neg hlt]

/-! ## Lines -/

/-- The end of a line outside of brackets. -/
theorem Lexes.newline (hline : l.atLineStart = false) (hdepth : l.depth = 0)
    (hrest : l.rest = '\n' :: rest)
    (hnext : ∀ next : Lexer, next.rest = rest → next.indents = l.indents → next.depth = 0 →
      next.atLineStart = true → next.Lexes ks) : l.Lexes (.newline :: ks) := by
  have hzero : blankLength (l.depth != 0) false l.rest = 0 := by
    rw [hrest, hdepth, blankLength.eq_def]
    rfl
  have hstep : ∃ t next, l.step = .more [t] next ∧ t.kind = .newline ∧ next.rest = rest ∧
      next.indents = l.indents ∧ next.depth = 0 ∧ next.atLineStart = true := by
    refine ⟨⟨.newline, .between l.position (l.advance 1).position⟩,
      { l.advance 1 with depth := 0, atLineStart := true }, ?_, rfl, ?_, rfl, rfl, rfl⟩
    · rw [step, hline, if_neg Bool.false_ne_true, token, hzero, advance_zero]
      dsimp only
      split
      · next heq => exact absurd (hrest.symm.trans heq) (List.cons_ne_nil _ _)
      · next c ds heq =>
        obtain ⟨rfl, rfl⟩ := List.cons.inj (hrest.symm.trans heq)
        rw [scanLexeme, if_pos rfl]
        simp [depthAfter, hdepth]
    · show l.rest.drop 1 = rest
      rw [hrest]
      rfl
  obtain ⟨t, next, hstep, ht, h1, h2, h3, h4⟩ := hstep
  have hmore := (hnext next h1 h2 h3 h4).more hstep
  rw [List.map_cons, List.map_nil, ht] at hmore
  exact hmore

/-- A line of code at the start of a line. -/
theorem Lexes.line {width current level : Nat} {text : List Char} (hwidth : 0 < width)
    (hline : l.atLineStart = true) (hdepth : l.depth = 0)
    (hindents : l.indents = openWidths width current) (hle : level ≤ current + 1)
    (hspells : Spells text ks) (hne : ks ≠ [])
    (hrest : l.rest = List.replicate (level * width) ' ' ++ (text ++ '\n' :: rest))
    (hnext : ∀ next : Lexer, next.rest = rest → next.indents = openWidths width level →
      next.depth = 0 → next.atLineStart = true → next.Lexes ks') :
    l.Lexes (layoutKinds current level ++ (ks ++ .newline :: ks')) := by
  obtain ⟨c, ds, rfl⟩ := List.exists_cons_of_ne_nil (hspells.ne_nil hne)
  obtain ⟨k, n, ks₀, rfl, hscan, hopen, hcuts⟩ :=
    (hspells.cuts ('\n' :: rest) rfl).first (fun heq => hspells.solid (heq ▸ rfl)) hne
  have hlayout := layout_openWidths hwidth hindents hle
  obtain ⟨tokens, next, hstep, htokens, hnextRest, hnextIndents, hnextDepth, hnextLine⟩ :=
    step_of_scan hline hrest hscan hopen hlayout
  have hlexes : next.Lexes (ks₀ ++ .newline :: ks') := by
    apply Lexes.cuts hcuts hnextLine hnextRest
    intro last hlast hlastIndents hlastDepth hlastLine
    have hbalanced : last.depth = 0 := by
      rw [hlastDepth, hnextDepth, hdepth]
      exact hspells.balanced 0
    refine Lexes.newline hlastLine hbalanced hlast fun after h1 h2 h3 h4 => hnext after h1 ?_ h3 h4
    rw [h2, hlastIndents, hnextIndents]
  have hmore := hlexes.more hstep
  rw [htokens] at hmore
  simpa using hmore

/-- A comment that has its line for itself. -/
theorem Lexes.comment {text : List Char} {n : Nat} (hline : l.atLineStart = true)
    (hrest : l.rest = List.replicate n ' ' ++ '#' :: (text ++ '\n' :: rest)) (htext : '\n' ∉ text)
    (hnext : ∀ next : Lexer, next.rest = rest → next.indents = l.indents →
      next.depth = l.depth → next.atLineStart = true → next.Lexes ks) :
    l.Lexes (.comment (trimEnd (String.ofList text)) :: ks) := by
  have hempty : emptyLinesLength l.rest = 0 := by
    rw [hrest]
    exact emptyLinesLength_of_solid rfl (by decide) n
  have hblanks : l.rest.takeWhile isIndentation = List.replicate n ' ' := by
    rw [hrest]
    exact takeWhile_isIndentation rfl n
  have hstart : (l.advance n).rest = '#' :: (text ++ '\n' :: rest) := by
    rw [rest_advance, hrest]
    exact List.drop_left' (List.length_replicate ..)
  have htake : (l.advance n).rest.takeWhile (· != '\n') = '#' :: text := by
    rw [hstart, ← List.cons_append, List.takeWhile_append_of_pos]
    · rw [List.takeWhile_cons_of_neg (by simp), List.append_nil]
    · intro c hc
      rcases List.mem_cons.mp hc with rfl | hc
      · rfl
      · simp only [bne_iff_ne]
        exact fun heq => htext (heq ▸ hc)
  have hlast : (((l.advance n).advance ('#' :: text).length).advance 1).rest = rest := by
    rw [rest_advance, rest_advance, hstart, ← List.cons_append, List.drop_left]
    rfl
  have hstep : ∃ t next, l.step = .more [t] next ∧
      t.kind = .comment (trimEnd (String.ofList text)) ∧ next.rest = rest ∧
        next.indents = l.indents ∧ next.depth = l.depth ∧ next.atLineStart = true := by
    refine ⟨⟨.comment (trimEnd (String.ofList text)), .between (l.advance n).position
      ((l.advance n).advance ('#' :: text).length).position⟩, _, ?_, rfl, hlast, rfl, rfl, hline⟩
    · rw [step, hline, if_pos rfl, hempty, advance_zero]
      dsimp only
      rw [hblanks, List.length_replicate]
      split
      · next heq => exact absurd (hstart.symm.trans heq) (List.cons_ne_nil _ _)
      · next c ds heq =>
        obtain ⟨rfl, -⟩ := List.cons.inj (hstart.symm.trans heq)
        rw [if_pos rfl, Lexer.comment, htake]
        rfl
  obtain ⟨t, next, hstep, ht, h1, h2, h3, h4⟩ := hstep
  have hmore := (hnext next h1 h2 h3 h4).more hstep
  rw [List.map_cons, List.map_nil, ht] at hmore
  exact hmore

theorem Lexes.emptyLine (hline : l.atLineStart = true) (hrest : l.rest = '\n' :: rest)
    (h : (l.advance 1).Lexes ks) : l.Lexes ks := by
  have hstep : l.step = (l.advance 1).step := by
    have hline' : (l.advance 1).atLineStart = true := hline
    have hrest' : (l.advance 1).rest = rest := by
      rw [rest_advance, hrest]
      rfl
    have hlength : emptyLinesLength ('\n' :: rest) = 1 + emptyLinesLength rest := by
      rw [emptyLinesLength.eq_def]
      dsimp only
      split
      · next rest' heq =>
        obtain ⟨-, rfl⟩ := List.cons.inj (show '\n' :: rest = '\n' :: rest' from heq)
        exact Nat.add_comm _ _
      · next hnot => exact absurd rfl (hnot rest)
    rw [step, step, hline, hline', if_pos rfl, if_pos rfl, hrest, hrest', hlength,
      ← advance_advance]
  rw [Lexes, run_congr hstep]
  exact h

/-- The end of the text at the start of a line. -/
theorem lexes_end_of_line (hline : l.atLineStart = true) (hrest : l.rest = []) :
    l.Lexes (List.replicate l.indents.length .dedent ++ [.eof]) := by
  have hempty : emptyLinesLength [] = 0 := by
    rw [emptyLinesLength.eq_def]
    rfl
  have hstep : l.step = .done (l.closing false) := by
    rw [step, hline, if_pos rfl, hrest, hempty, advance_zero]
    dsimp only
    rw [hrest]
    rw [List.takeWhile_nil, List.length_nil, advance_zero]
    split
    · rfl
    · next heq => exact absurd (hrest.symm.trans heq) (List.cons_ne_nil _ _).symm
  rw [Lexes, run_done hstep]
  refine ⟨rfl, ?_⟩
  simp [closing]

def linesText (layout : Layout) (lines : List Line) : List Char :=
  lines.flatMap fun line => (line.print layout).toList

theorem linesText_cons (layout : Layout) (line : Line) (lines : List Line) :
    linesText layout (line :: lines) =
      List.replicate (line.level * layout.indentWidth) ' ' ++
        (line.text.toList ++ '\n' :: linesText layout lines) := by
  simp [linesText, Line.print]

/-- The text of lines is read as the lexemes of their rows. -/
theorem lexes_of_renders {layout : Layout} (hwidth : 0 < layout.indentWidth) {lines : List Line}
    {rows : List Row} (h : Renders lines rows) {current : Nat} (hfit : RowsFit current rows)
    (hline : l.atLineStart = true) (hdepth : l.depth = 0)
    (hindents : l.indents = openWidths layout.indentWidth current)
    (hrest : l.rest = linesText layout lines) : l.Lexes (rowKinds current rows) := by
  induction h generalizing l current with
  | nil =>
    have hend := lexes_end_of_line hline hrest
    rw [hindents, length_openWidths] at hend
    exact hend
  | @blank lines rows _ ih =>
    rw [linesText_cons] at hrest
    have hnewline : l.rest = '\n' :: linesText layout lines := by simpa using hrest
    apply Lexes.emptyLine hline hnewline
    apply ih hfit
    · exact hline
    · exact hdepth
    · exact hindents
    · rw [rest_advance, hnewline]
      rfl
  | code spells ne_nil _ ih =>
    rw [linesText_cons] at hrest
    rw [rowKinds]
    refine Lexes.line hwidth hline hdepth hindents hfit.1 spells ne_nil hrest ?_
    exact fun next h1 h2 h3 h4 => ih hfit.2 h4 h3 h2 h1
  | @comment level text lines rows oneLine _ ih =>
    rw [linesText_cons] at hrest
    have hsharp : l.rest = List.replicate (level * layout.indentWidth) ' ' ++
        '#' :: (text.toList ++ '\n' :: linesText layout lines) := by
      simpa using hrest
    rw [rowKinds, ← @String.ofList_toList text]
    apply Lexes.comment hline hsharp oneLine
    exact fun next h1 h2 h3 h4 => ih hfit h4 (h3.trans hdepth) (h2.trans hindents) h1

end Lexer

/-- The text of a module is read as the lexemes of its rows, whatever its layout. -/
theorem tokens_printModule {layout : Layout} (hwidth : 0 < layout.indentWidth) {body : List Stmt}
    (h : StmtsMeet .worded body) : ∃ ts, tokens (printModule layout body) = .ok ts ∧
      ts.map Token.kind = rowKinds 0 (bodyRows 0 body) := by
  have hrenders := Body.renders body h layout 0
  have hfit : RowsFit 0 (bodyRows 0 body ++ []) := Body.rowsFit body (Nat.zero_le _) trivial
  rw [List.append_nil] at hfit
  apply tokens_of_lexes
  apply Lexer.lexes_of_renders hwidth hrenders hfit rfl rfl rfl
  show (printModule layout body).toList = _
  rw [printModule, String.toList_join, List.flatMap_map, Lexer.linesText]

end StagedScript.Syntax
