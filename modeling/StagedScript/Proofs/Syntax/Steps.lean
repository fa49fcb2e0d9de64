import StagedScript.Proofs.Syntax.Lexing

/-!
# One step of reading

What a single step can do is said once, with the guards that lead to it: at the
start of a line it skips empty lines and measures the indentation, and in a line
it skips blank space and scans one lexeme.
-/

namespace StagedScript.Syntax

open Text

theorem keepsLineOpen_stringLexeme (isFormatted : Bool) (text : List Char) :
    (stringLexeme isFormatted text).keepsLineOpen = true := by
  cases isFormatted <;> rfl

theorem keepsLineOpen_of_map_stringLexeme {s : Scan (List Char)} {isFormatted : Bool} {k : Lexeme}
    (h : (s.map (stringLexeme isFormatted)).result = .ok k) : k.keepsLineOpen = true := by
  obtain ⟨text, -, rfl⟩ := Scan.exists_of_map h
  exact keepsLineOpen_stringLexeme isFormatted text

theorem keepsLineOpen_of_scanWord {cs : List Char} {k : Lexeme}
    (h : (scanWord cs).result = .ok k) : k.keepsLineOpen = true := by
  unfold scanWord at h
  dsimp only at h
  split at h
  · exact keepsLineOpen_of_map_stringLexeme h
  · obtain rfl := Except.ok.inj h
    unfold wordLexeme
    dsimp only
    split <;> rfl

theorem keepsLineOpen_of_scanNumber {cs : List Char} {k : Lexeme}
    (h : (scanNumber cs).result = .ok k) : k.keepsLineOpen = true := by
  obtain ⟨n, rfl⟩ | ⟨number, rfl⟩ := number_of_scanNumber h <;> rfl

/-- A lexeme that is scanned ends its line or belongs to it. -/
theorem newline_or_keepsLineOpen_of_scan {c : Char} {cs : List Char} {k : Lexeme}
    (h : (scanLexeme (c :: cs)).result = .ok k) : k = .newline ∨ k.keepsLineOpen = true := by
  cases scanned_of_scan h with
  | feed kind => exact .inl kind
  | word first scan => exact .inr (keepsLineOpen_of_scanWord (scan ▸ h))
  | number scan => exact .inr (keepsLineOpen_of_scanNumber (scan ▸ h))
  | string scan => exact .inr (keepsLineOpen_of_map_stringLexeme (scan ▸ h))
  | symbol sign kind => exact .inr (kind ▸ rfl)

namespace Lexer

/-- A line opens one block that is wider than the others, or closes blocks, or neither. -/
theorem layout_cases {l : Lexer} {width : Nat} {marks : List Lexeme} {indents : List Nat}
    (h : l.layout width = .ok (marks, indents)) :
    (l.width < width ∧ marks = [.indent] ∧ indents = width :: l.indents) ∨
      (indents <:+ l.indents ∧
        marks = List.replicate (l.indents.length - indents.length) .dedent) := by
  unfold layout at h
  split at h
  · next hlt =>
    obtain ⟨rfl, rfl⟩ := Prod.mk.inj (Except.ok.inj h)
    exact .inl ⟨hlt, rfl, rfl⟩
  · dsimp only at h
    split at h
    · obtain ⟨rfl, rfl⟩ := Prod.mk.inj (Except.ok.inj h)
      exact .inr ⟨List.dropWhile_suffix _, rfl⟩
    · cases h

/-- The marks of a line are starts and ends of blocks. -/
theorem layout_kinds {l : Lexer} {width : Nat} {marks : List Lexeme} {indents : List Nat}
    (h : l.layout width = .ok (marks, indents)) : ∀ k ∈ marks, k = .indent ∨ k = .dedent := by
  obtain ⟨-, rfl, -⟩ | ⟨-, rfl⟩ := layout_cases h
  · exact fun k hk => .inl (List.mem_singleton.mp hk)
  · exact fun k hk => .inr (List.eq_of_mem_replicate hk)

/-! ## Steps -/

/-- The blank space in front of the next line that is not empty. -/
def indentation (l : Lexer) : List Char :=
  (l.advance (emptyLinesLength l.rest)).rest.takeWhile isIndentation

/-- The place after empty lines and indentation. -/
def lineStart (l : Lexer) : Lexer :=
  (l.advance (emptyLinesLength l.rest)).advance l.indentation.length

/-- The place after the blank space inside of a line. -/
def tokenStart (l : Lexer) : Lexer :=
  l.advance (blankLength (l.depth != 0) false l.rest)

def afterLexeme (l : Lexer) (kind : Lexeme) (n : Nat) : Lexer :=
  { l.advance n with depth := depthAfter l.depth kind, atLineStart := kind = .newline }

/-- The comment up to the end of its line, with its mark. -/
def commentText (l : Lexer) : List Char :=
  l.rest.takeWhile (· != '\n')

def commentToken (l : Lexer) : Token :=
  ⟨.comment (trimEnd (String.ofList (l.commentText.drop 1))),
    .between l.position (l.advance l.commentText.length).position⟩

/-- What can happen after the layout marks of a line, or inside of it. -/
inductive InLine (l : Lexer) (marks : List Token) (lineOpen : Bool) : Step → Prop
  | ended (hrest : l.tokenStart.rest = []) :
    InLine l marks lineOpen (.done (marks ++ l.tokenStart.closing lineOpen))
  | unreadable {c : Char} {cs : List Char} {defect : Defect} (hrest : l.tokenStart.rest = c :: cs)
      (hscan : (scanLexeme (c :: cs)).result = .error defect) :
    InLine l marks lineOpen (.fault marks defect (.between l.tokenStart.position
      (l.tokenStart.advance (scanLexeme (c :: cs)).length).position))
  | lexeme {c : Char} {cs : List Char} {kind : Lexeme} (hrest : l.tokenStart.rest = c :: cs)
      (hscan : (scanLexeme (c :: cs)).result = .ok kind) :
    InLine l marks lineOpen (.more
      (marks ++ [⟨kind, .between l.tokenStart.position
        (l.tokenStart.advance (scanLexeme (c :: cs)).length).position⟩])
      (l.tokenStart.afterLexeme kind (scanLexeme (c :: cs)).length))

/-- What can happen in one step. -/
inductive OneStep (l : Lexer) : Step → Prop
  | inside {s : Step} (hline : l.atLineStart = false) (h : l.InLine [] true s) : OneStep l s
  | ended (hline : l.atLineStart = true) (hrest : l.lineStart.rest = []) :
    OneStep l (.done (l.lineStart.closing false))
  | comment {cs : List Char} (hline : l.atLineStart = true) (hrest : l.lineStart.rest = '#' :: cs) :
    OneStep l (.more [l.lineStart.commentToken]
      ((l.lineStart.advance l.lineStart.commentText.length).advance 1))
  | misplaced {c : Char} {cs : List Char} {defect : Defect} (hline : l.atLineStart = true)
      (hrest : l.lineStart.rest = c :: cs) (hmark : c ≠ '#')
      (hlayout : l.lineStart.layout (indentWidth l.indentation) = .error defect) :
    OneStep l (.fault [] defect l.lineStart.here)
  | line {c : Char} {cs : List Char} {marks : List Lexeme} {indents : List Nat} {s : Step}
      (hline : l.atLineStart = true) (hrest : l.lineStart.rest = c :: cs) (hmark : c ≠ '#')
      (hlayout : l.lineStart.layout (indentWidth l.indentation) = .ok (marks, indents))
      (h : { l.lineStart with indents := indents }.InLine
        (marks.map (⟨·, l.lineStart.here⟩)) false s) : OneStep l s

theorem token_eq (l : Lexer) (marks : List Token) (lineOpen : Bool) :
    l.token marks lineOpen =
      match l.tokenStart.rest with
      | [] => .done (marks ++ l.tokenStart.closing lineOpen)
      | c :: cs =>
        let scan := scanLexeme (c :: cs)
        let span :=
          Span.between l.tokenStart.position (l.tokenStart.advance scan.length).position
        match scan.result with
        | .error defect => .fault marks defect span
        | .ok kind => .more (marks ++ [⟨kind, span⟩]) (l.tokenStart.afterLexeme kind scan.length) :=
  rfl

theorem step_inside {l : Lexer} (hline : l.atLineStart = false) : l.step = l.token [] true := by
  rw [step, hline, if_neg Bool.false_ne_true]

theorem step_lineStart {l : Lexer} (hline : l.atLineStart = true) :
    l.step =
      match l.lineStart.rest with
      | [] => .done (l.lineStart.closing false)
      | c :: _ =>
        if c = '#' then l.lineStart.comment
        else
          match l.lineStart.layout (indentWidth l.indentation) with
          | .error defect => .fault [] defect l.lineStart.here
          | .ok (marks, indents) =>
            { l.lineStart with indents := indents }.token (marks.map (⟨·, l.lineStart.here⟩))
              false := by
  rw [step, hline, if_pos rfl]
  rfl

theorem inLine_token (l : Lexer) (marks : List Token) (lineOpen : Bool) :
    l.InLine marks lineOpen (l.token marks lineOpen) := by
  rw [token_eq]
  split
  · next hrest => exact .ended hrest
  · next c cs hrest =>
    dsimp only
    split
    · next hscan => exact .unreadable hrest hscan
    · next hscan => exact .lexeme hrest hscan

theorem oneStep (l : Lexer) : l.OneStep l.step := by
  cases hline : l.atLineStart with
  | false =>
    rw [step_inside hline]
    exact .inside hline (inLine_token l [] true)
  | true =>
    rw [step_lineStart hline]
    split
    · next hrest => exact .ended hline hrest
    next c cs hrest =>
    split
    · next hmark =>
      subst hmark
      exact .comment hline hrest
    next hmark =>
    split
    · next hlayout => exact .misplaced hline hrest hmark hlayout
    · next hlayout => exact .line hline hrest hmark hlayout (inLine_token ..)

theorem indentation_ne_nil {l : Lexer} (h : 0 < indentWidth l.indentation) :
    l.indentation ≠ [] := by
  intro hnil
  rw [hnil] at h
  exact absurd h (Nat.lt_irrefl 0)

theorem length_rest_lineStart_le (l : Lexer) : l.lineStart.rest.length ≤ l.rest.length :=
  Nat.le_trans (length_rest_advance_le _ _) (length_rest_advance_le _ _)

theorem length_rest_tokenStart_le (l : Lexer) : l.tokenStart.rest.length ≤ l.rest.length :=
  length_rest_advance_le _ _

/-- Indentation is part of the text. -/
theorem length_rest_lineStart_lt (l : Lexer) (h : l.indentation ≠ []) :
    l.lineStart.rest.length < l.rest.length := by
  refine Nat.lt_of_lt_of_le ?_ (length_rest_advance_le l (emptyLinesLength l.rest))
  refine length_rest_advance_lt _ (List.length_pos_iff.mpr h) fun hnil => h ?_
  rw [indentation, hnil]
  rfl

end Lexer

end StagedScript.Syntax
