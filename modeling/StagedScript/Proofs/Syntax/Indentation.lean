import StagedScript.Proofs.Syntax.ScannedTokens
import StagedScript.Proofs.Syntax.Steps

/-!
# Indentation marks

A step of reading may bring several tokens: all blocks that a line closes are
closed at once.  A reader gives out the same tokens one by one and keeps the ends
of blocks that it still owes.  Whatever it has given out so far, the open blocks
are nested strictly, and their number with the ends that are owed is the number
of starts of blocks given out less the number of ends.
-/

namespace StagedScript.Syntax

open Text

/-- Where giving out tokens stands. -/
structure Reader where
  lexer : Lexer
  /-- How many ends of blocks were found and not given out yet. -/
  pending : Nat
  /-- Whether a token of the current line was given out. -/
  lineOpen : Bool

namespace Reader

/-- The state before the first token. -/
def start (source : String) : Reader :=
  ⟨.start source, 0, false⟩

/-- The reader that goes on where reading stands. -/
def ofLexer (l : Lexer) : Reader :=
  ⟨l, 0, !l.atLineStart⟩

/-- A token at the end of the text: the end of a line that is still open, the end of an open block
or the end mark. -/
def atEnd (l : Lexer) (lineOpen : Bool) : Token × Reader :=
  if lineOpen then (⟨.newline, l.here⟩, ⟨l, 0, false⟩)
  else
    match l.indents with
    | _ :: outer => (⟨.dedent, l.here⟩, ⟨{ l with indents := outer }, 0, false⟩)
    | [] => (⟨.eof, l.here⟩, ⟨l, 0, false⟩)

/-- The next token inside of a line. -/
def inLine (l : Lexer) (lineOpen : Bool) : Except SyntaxFault (Token × Reader) :=
  match l.tokenStart.rest with
  | [] => .ok (atEnd l.tokenStart lineOpen)
  | c :: cs =>
    let scan := scanLexeme (c :: cs)
    let span := Span.between l.tokenStart.position (l.tokenStart.advance scan.length).position
    match scan.result with
    | .error defect => .error (.invalid defect span)
    | .ok kind =>
      .ok (⟨kind, span⟩, ⟨l.tokenStart.afterLexeme kind scan.length, 0, kind.keepsLineOpen⟩)

/-- The next token; after the last one comes the end mark again. -/
def next (r : Reader) : Except SyntaxFault (Token × Reader) :=
  if 0 < r.pending then .ok (⟨.dedent, r.lexer.here⟩, ⟨r.lexer, r.pending - 1, false⟩)
  else if r.lexer.atLineStart then
    let l := r.lexer.lineStart
    match l.rest with
    | [] => .ok (atEnd l r.lineOpen)
    | c :: _ =>
      if c = '#' then
        .ok (l.commentToken, ⟨(l.advance l.commentText.length).advance 1, 0, false⟩)
      else
        match l.layout (indentWidth r.lexer.indentation) with
        | .error defect => .error (.invalid defect l.here)
        | .ok ([], indents) => inLine { l with indents := indents, atLineStart := false } r.lineOpen
        | .ok (mark :: marks, indents) =>
          .ok (⟨mark, l.here⟩,
            ⟨{ l with indents := indents, atLineStart := false }, marks.length, false⟩)
  else inLine r.lexer r.lineOpen

/-- Gives out tokens up to the end mark or the first fault, with a bound on their number. -/
def collect : Nat → Reader → Option (List Token × Option SyntaxFault)
  | 0, _ => none
  | n + 1, r =>
    match r.next with
    | .error fault => some ([], some fault)
    | .ok (t, r') =>
      if t.kind = .eof then some ([t], none)
      else (collect n r').map fun (ts, fault) => (t :: ts, fault)

/-- Giving out the tokens leads from one state to the other. -/
inductive Emits : Reader → List Token → Reader → Prop
  | nil (r : Reader) : Emits r [] r
  | cons {r mid r' : Reader} {t : Token} {ts : List Token} (first : r.next = .ok (t, mid)) :
    Emits mid ts r' → Emits r (t :: ts) r'

/-- The widths of the open blocks, outermost first; the outermost one has width zero. -/
def stack (r : Reader) : List Nat :=
  0 :: r.lexer.indents.reverse

end Reader

def blockStarts (ts : List Token) : Nat :=
  (ts.map Token.kind).count .indent

def blockEnds (ts : List Token) : Nat :=
  (ts.map Token.kind).count .dedent

namespace Reader

variable {r mid r' : Reader} {t : Token} {ts us : List Token}

/-! ## What giving out a token does -/

/-- The change of state that a token stands for. -/
inductive Gives (r : Reader) (t : Token) (r' : Reader) : Prop
  | owed (kind : t.kind = .dedent) (indents : r'.lexer.indents = r.lexer.indents)
      (pending : r.pending = r'.pending + 1)
      (rest : r'.lexer.rest.length ≤ r.lexer.rest.length) (line : r'.lineOpen = false)
  | opens {width : Nat} (kind : t.kind = .indent) (wider : r.lexer.width < width)
      (indents : r'.lexer.indents = width :: r.lexer.indents) (pending : r.pending = 0)
      (pending' : r'.pending = 0) (rest : r'.lexer.rest.length < r.lexer.rest.length)
      (line : r'.lineOpen = false)
  | closes (kind : t.kind = .dedent) (indents : r'.lexer.indents <:+ r.lexer.indents)
      (pending : r.pending = 0)
      (count : r'.lexer.indents.length + r'.pending + 1 = r.lexer.indents.length)
      (rest : r'.lexer.rest.length ≤ r.lexer.rest.length) (line : r'.lineOpen = false)
  | lineEnd (kind : t.kind = .newline) (indents : r'.lexer.indents = r.lexer.indents)
      (pending : r.pending = 0) (pending' : r'.pending = 0)
      (rest : r'.lexer.rest.length ≤ r.lexer.rest.length) (line : r.lineOpen = true)
      (line' : r'.lineOpen = false)
  | inner (inside : t.kind ≠ .eof) (indent : t.kind ≠ .indent) (dedent : t.kind ≠ .dedent)
      (indents : r'.lexer.indents = r.lexer.indents) (pending : r.pending = 0)
      (pending' : r'.pending = 0) (rest : r'.lexer.rest.length < r.lexer.rest.length)
  | last (kind : t.kind = .eof) (none : r.lexer.indents = []) (indents : r'.lexer.indents = [])
      (pending : r.pending = 0) (pending' : r'.pending = 0)

theorem gives_atEnd {l : Lexer} {lineOpen : Bool} (hpending : r.pending = 0)
    (hindents : l.indents = r.lexer.indents) (hrest : l.rest.length ≤ r.lexer.rest.length)
    (hline : lineOpen = r.lineOpen) : r.Gives (atEnd l lineOpen).1 (atEnd l lineOpen).2 := by
  subst hline
  cases hopen : r.lineOpen with
  | true => exact .lineEnd rfl hindents hpending rfl hrest hopen rfl
  | false =>
    unfold atEnd
    rw [if_neg Bool.false_ne_true]
    cases hwidths : l.indents with
    | nil => exact .last rfl (hindents ▸ hwidths) hwidths hpending rfl
    | cons width outer =>
      rw [hwidths] at hindents
      refine .closes rfl ?_ hpending ?_ hrest rfl
      · rw [← hindents]
        exact List.suffix_cons width outer
      · rw [← hindents]
        rfl

theorem gives_inLine {l : Lexer} {lineOpen : Bool} (hpending : r.pending = 0)
    (hindents : l.indents = r.lexer.indents) (hrest : l.rest.length ≤ r.lexer.rest.length)
    (hline : lineOpen = r.lineOpen) (h : inLine l lineOpen = .ok (t, r')) : r.Gives t r' := by
  have hstart : l.tokenStart.rest.length ≤ r.lexer.rest.length :=
    Nat.le_trans l.length_rest_tokenStart_le hrest
  unfold inLine at h
  split at h
  · obtain ⟨rfl, rfl⟩ := Prod.mk.inj (Except.ok.inj h)
    exact gives_atEnd hpending hindents hstart hline
  · next c cs heq =>
    dsimp only at h
    split at h
    · cases h
    · next kind hscan =>
      obtain ⟨rfl, rfl⟩ := Prod.mk.inj (Except.ok.inj h)
      have hshort := Lexer.length_rest_advance_lt l.tokenStart (length_scanLexeme_pos c cs)
        (heq ▸ List.cons_ne_nil c cs)
      have hkind := newline_or_keepsLineOpen_of_scan hscan
      refine .inner (proper_of_scan hscan).2 ?_ ?_ hindents hpending rfl
        (Nat.lt_of_lt_of_le hshort hstart)
      · rintro rfl
        simp [Lexeme.keepsLineOpen] at hkind
      · rintro rfl
        simp [Lexeme.keepsLineOpen] at hkind

theorem gives_comment {cs : List Char} (hpending : r.pending = 0)
    (hrest : r.lexer.lineStart.rest = '#' :: cs) :
    r.Gives r.lexer.lineStart.commentToken
      ⟨(r.lexer.lineStart.advance r.lexer.lineStart.commentText.length).advance 1, 0, false⟩ := by
  have hlength : 0 < r.lexer.lineStart.commentText.length := by
    rw [Lexer.commentText, hrest]
    exact length_takeWhile_pos cs (by decide)
  have hshort := Lexer.length_rest_advance_lt r.lexer.lineStart hlength
    (hrest ▸ List.cons_ne_nil '#' cs)
  have hcomment := Lexer.length_rest_advance_le
    (r.lexer.lineStart.advance r.lexer.lineStart.commentText.length) 1
  exact .inner Lexeme.noConfusion Lexeme.noConfusion Lexeme.noConfusion rfl hpending rfl
    (Nat.lt_of_le_of_lt hcomment (Nat.lt_of_lt_of_le hshort r.lexer.length_rest_lineStart_le))

theorem gives_mark {mark : Lexeme} {marks : List Lexeme} {indents : List Nat}
    (hpending : r.pending = 0)
    (hlayout : r.lexer.lineStart.layout (indentWidth r.lexer.indentation) =
      .ok (mark :: marks, indents)) :
    r.Gives ⟨mark, r.lexer.lineStart.here⟩
      ⟨{ r.lexer.lineStart with indents := indents, atLineStart := false }, marks.length,
        false⟩ := by
  obtain ⟨hwider, hmarks, hindents⟩ | ⟨hsuffix, hmarks⟩ := Lexer.layout_cases hlayout
  · obtain ⟨rfl, rfl⟩ := List.cons.inj hmarks
    refine .opens rfl hwider hindents hpending rfl ?_ rfl
    exact r.lexer.length_rest_lineStart_lt
      (Lexer.indentation_ne_nil (Nat.lt_of_le_of_lt (Nat.zero_le _) hwider))
  · have hlength := congrArg List.length hmarks
    rw [List.length_cons, List.length_replicate] at hlength
    have hmark : mark = .dedent := List.eq_of_mem_replicate (hmarks ▸ List.mem_cons_self)
    refine .closes hmark hsuffix hpending ?_ r.lexer.length_rest_lineStart_le rfl
    change indents.length + marks.length + 1 = r.lexer.indents.length
    have hindents := hsuffix.length_le
    change indents.length ≤ r.lexer.indents.length at hindents
    change _ = r.lexer.indents.length - indents.length at hlength
    omega

theorem gives_next (h : r.next = .ok (t, r')) : r.Gives t r' := by
  unfold next at h
  split at h
  · next hpos =>
    obtain ⟨rfl, rfl⟩ := Prod.mk.inj (Except.ok.inj h)
    exact .owed rfl rfl (Nat.succ_pred_eq_of_pos hpos).symm (Nat.le_refl _) rfl
  next hpos =>
  have hpending : r.pending = 0 := Nat.eq_zero_of_not_pos hpos
  have hle := r.lexer.length_rest_lineStart_le
  split at h
  · dsimp only at h
    split at h
    · obtain ⟨rfl, rfl⟩ := Prod.mk.inj (Except.ok.inj h)
      exact gives_atEnd hpending rfl hle rfl
    next c cs hrest =>
    split at h
    · next hmark =>
      subst hmark
      obtain ⟨rfl, rfl⟩ := Prod.mk.inj (Except.ok.inj h)
      exact gives_comment hpending hrest
    split at h
    · cases h
    · next indents hlayout =>
      obtain ⟨-, hmarks, -⟩ | ⟨hsuffix, hmarks⟩ := Lexer.layout_cases hlayout
      · cases hmarks
      · have hle' : r.lexer.lineStart.indents.length ≤ indents.length := by
          simpa [Nat.sub_eq_zero_iff_le] using hmarks
        have hindents := hsuffix.eq_of_length_le hle'
        exact gives_inLine
          (l := { r.lexer.lineStart with indents := indents, atLineStart := false })
          hpending hindents hle rfl h
    · next mark marks indents hlayout =>
      obtain ⟨rfl, rfl⟩ := Prod.mk.inj (Except.ok.inj h)
      exact gives_mark hpending hlayout
  · exact gives_inLine hpending rfl (Nat.le_refl _) rfl h

/-- Each token but the end mark lowers this number. -/
def potential (r : Reader) : Nat :=
  3 * r.lexer.rest.length + r.lexer.indents.length + r.pending + if r.lineOpen then 1 else 0

theorem potential_next (h : r.next = .ok (t, r')) (hinside : t.kind ≠ .eof) :
    r'.potential < r.potential := by
  have hle (b : Bool) : (if b then 1 else 0) ≤ 1 := by cases b <;> decide
  have hopen := hle r.lineOpen
  have hopen' := hle r'.lineOpen
  unfold potential
  cases gives_next h with
  | owed kind indents pending rest line =>
    rw [indents, line, if_neg Bool.false_ne_true]
    omega
  | opens kind wider indents pending pending' rest line =>
    rw [indents, line, if_neg Bool.false_ne_true, List.length_cons]
    omega
  | closes kind indents pending count rest line =>
    rw [line, if_neg Bool.false_ne_true]
    omega
  | lineEnd kind indents pending pending' rest line line' =>
    rw [indents, line, line', if_pos rfl, if_neg Bool.false_ne_true]
    omega
  | inner inside indent dedent indents pending pending' rest =>
    rw [indents]
    omega
  | last kind => exact absurd kind hinside

/-! ## Open blocks -/

/-- The widths of blocks, innermost first, rise strictly from zero. -/
def Nested (widths : List Nat) : Prop :=
  (0 :: widths.reverse).Pairwise (· < ·)

theorem Nested.suffix {outer widths : List Nat} (h : Nested widths) (hsuffix : outer <:+ widths) :
    Nested outer :=
  h.sublist ((List.reverse_prefix.mpr hsuffix).sublist.cons_cons 0)

theorem Nested.cons {width : Nat} {widths : List Nat} (h : Nested widths)
    (hwider : widths.head?.getD 0 < width) : Nested (width :: widths) := by
  have hbelow : ∀ w ∈ 0 :: widths.reverse, w ≤ widths.head?.getD 0 := by
    cases widths with
    | nil => simp
    | cons inner outer =>
      intro w hw
      rw [Nested, List.reverse_cons, ← List.cons_append, List.pairwise_append] at h
      rw [List.reverse_cons, ← List.cons_append, List.mem_append, List.mem_singleton] at hw
      rcases hw with hw | rfl
      · exact Nat.le_of_lt (h.2.2 w hw inner List.mem_cons_self)
      · exact Nat.le_refl _
  rw [Nested, List.reverse_cons, ← List.cons_append, List.pairwise_append]
  refine ⟨h, List.pairwise_singleton _ _, fun w hw w' hw' => ?_⟩
  obtain rfl := List.mem_singleton.mp hw'
  exact Nat.lt_of_le_of_lt (hbelow w hw) hwider

theorem nested_next (h : r.next = .ok (t, r')) (hnested : Nested r.lexer.indents) :
    Nested r'.lexer.indents := by
  cases gives_next h with
  | owed kind indents => exact indents ▸ hnested
  | opens kind wider indents => exact indents ▸ hnested.cons wider
  | closes kind indents => exact hnested.suffix indents
  | lineEnd kind indents => exact indents ▸ hnested
  | inner inside indent dedent indents => exact indents ▸ hnested
  | last kind none indents =>
    rw [indents]
    exact List.pairwise_singleton _ _

/-- The blocks that are open or owe their end. -/
def blocks (r : Reader) : Nat :=
  r.lexer.indents.length + r.pending

theorem blocks_next (h : r.next = .ok (t, r')) :
    r'.blocks + blockEnds [t] = r.blocks + blockStarts [t] := by
  unfold blocks blockEnds blockStarts
  rw [List.map_cons, List.map_nil]
  cases gives_next h with
  | owed kind indents pending =>
    rw [kind, indents, pending]
    simp [Nat.add_assoc]
  | opens kind wider indents pending pending' =>
    rw [kind, indents, pending, pending']
    simp
  | closes kind indents pending count =>
    rw [kind, pending, ← count]
    simp
  | lineEnd kind indents pending pending' =>
    rw [kind, indents, pending, pending']
    simp
  | inner inside indent dedent indents pending pending' =>
    rw [indents, pending, pending', List.count_singleton, List.count_singleton]
    simp [indent, dedent]
  | last kind none indents pending pending' =>
    rw [kind, none, indents, pending, pending']
    simp

theorem blockStarts_append (ts us : List Token) :
    blockStarts (ts ++ us) = blockStarts ts + blockStarts us := by
  rw [blockStarts, List.map_append, List.count_append]
  rfl

theorem blockEnds_append (ts us : List Token) :
    blockEnds (ts ++ us) = blockEnds ts + blockEnds us := by
  rw [blockEnds, List.map_append, List.count_append]
  rfl

namespace Emits

theorem trans (h : Emits r ts mid) (h' : Emits mid us r') : Emits r (ts ++ us) r' := by
  induction h with
  | nil => exact h'
  | cons first _ ih => exact .cons first (ih h')

/-- On the way to a state lie the states after fewer tokens. -/
theorem split (h : Emits r (ts ++ us) r') : ∃ mid, Emits r ts mid ∧ Emits mid us r' := by
  induction ts generalizing r with
  | nil => exact ⟨r, .nil r, h⟩
  | cons t ts ih =>
    cases h with
    | cons first more =>
      obtain ⟨mid, hfirst, hrest⟩ := ih more
      exact ⟨mid, .cons first hfirst, hrest⟩

theorem nested (h : Emits r ts r') (hnested : Nested r.lexer.indents) :
    Nested r'.lexer.indents := by
  induction h with
  | nil => exact hnested
  | cons first _ ih => exact ih (nested_next first hnested)

theorem blocks (h : Emits r ts r') : r'.blocks + blockEnds ts = r.blocks + blockStarts ts := by
  induction h with
  | nil => rfl
  | @cons r mid r' t ts first _ ih =>
    have hfirst := blocks_next first
    have hstarts := blockStarts_append [t] ts
    have hends := blockEnds_append [t] ts
    rw [List.singleton_append] at hstarts hends
    omega

end Emits

/-! ## Both ways of reading give the same tokens -/

/-- Giving out the tokens, of which only the last is the end mark. -/
def Gathered (r : Reader) (ts : List Token) : Prop :=
  ∃ init t mid last, ts = init ++ [t] ∧ (∀ u ∈ init, u.kind ≠ .eof) ∧ t.kind = .eof ∧
    Emits r init mid ∧ mid.next = .ok (t, last)

/-- What giving out tokens one by one brings where a step of reading brings them at once. -/
def Brings (r : Reader) : Lexer.Step → Prop
  | .more tokens next => Emits r tokens (ofLexer next)
  | .done tokens => Gathered r tokens
  | .fault tokens defect span =>
    (∀ t ∈ tokens, t.kind ≠ .eof) ∧
      ∃ mid, Emits r tokens mid ∧ mid.next = .error (.invalid defect span)

theorem next_atEnd {l : Lexer} (hrest : l.rest = []) (lineOpen : Bool) :
    next ⟨l, 0, lineOpen⟩ = .ok (atEnd l lineOpen) := by
  cases hline : l.atLineStart with
  | true =>
    have hempty : emptyLinesLength l.rest = 0 := by
      rw [hrest, emptyLinesLength.eq_def]
      rfl
    have hstart : l.lineStart = l := by
      rw [Lexer.lineStart, Lexer.indentation, hempty, Lexer.advance_zero, hrest]
      exact l.advance_zero
    rw [next, if_neg (Nat.lt_irrefl 0), if_pos hline]
    dsimp only
    rw [hstart, hrest]
  | false =>
    have hstart : l.tokenStart = l := by
      rw [Lexer.tokenStart, hrest, blankLength.eq_def]
      exact l.advance_zero
    rw [next, if_neg (Nat.lt_irrefl 0), if_neg (by simp [hline]), inLine, hstart, hrest]

/-- More tokens in front of those that are given out. -/
theorem Emits.gathered (h : Emits r ts mid) (hinside : ∀ t ∈ ts, t.kind ≠ .eof)
    (hmid : mid.Gathered us) : r.Gathered (ts ++ us) := by
  obtain ⟨init, t, mid', last, rfl, hinit, hend, hemits, hlast⟩ := hmid
  refine ⟨ts ++ init, t, mid', last, (List.append_assoc ..).symm, ?_, hend, h.trans hemits, hlast⟩
  exact List.forall_mem_append.mpr ⟨hinside, hinit⟩

theorem gathered_blocks {l : Lexer} (hrest : l.rest = []) (hnext : r.next = .ok (atEnd l false)) :
    r.Gathered (l.closing false) := by
  obtain ⟨rest, position, indents, depth, line⟩ := l
  subst hrest
  induction indents generalizing r with
  | nil =>
    exact ⟨[], _, r, _, rfl, fun t ht => absurd ht List.not_mem_nil, rfl, .nil r, hnext⟩
  | cons width outer ih =>
    have hdedent : Emits r [⟨.dedent, .between position position⟩]
        ⟨⟨[], position, outer, depth, line⟩, 0, false⟩ := .cons hnext (.nil _)
    exact hdedent.gathered (List.forall_mem_singleton.mpr Lexeme.noConfusion)
      (ih (next_atEnd rfl false))

theorem gathered_closing {l : Lexer} {lineOpen : Bool} (hrest : l.rest = [])
    (hnext : r.next = .ok (atEnd l lineOpen)) : r.Gathered (l.closing lineOpen) := by
  cases lineOpen with
  | false => exact gathered_blocks hrest hnext
  | true =>
    have hnewline : Emits r [⟨.newline, l.here⟩] ⟨l, 0, false⟩ := .cons hnext (.nil _)
    exact hnewline.gathered (List.forall_mem_singleton.mpr Lexeme.noConfusion)
      (gathered_blocks hrest (next_atEnd hrest false))

/-- After the marks of its line a lexeme is given out as it is read. -/
theorem brings_inLine {l : Lexer} {marks : List Token} {lineOpen line : Bool} {s : Lexer.Step}
    (hmarks : Emits r marks mid) (hinside : ∀ t ∈ marks, t.kind ≠ .eof)
    (hnext : mid.next = inLine { l with atLineStart := line } lineOpen)
    (h : l.InLine marks lineOpen s) : r.Brings s := by
  -- Whether the line starts here does not matter once its marks are given out.
  let l' : Lexer := { l with atLineStart := line }
  cases h with
  | ended hrest =>
    have hlast : mid.next = .ok (atEnd l'.tokenStart lineOpen) := by
      rw [hnext, inLine]
      change (match l.tokenStart.rest with | [] => _ | c :: cs => _) = _
      rw [hrest]
    exact hmarks.gathered hinside (gathered_closing (l := l'.tokenStart) hrest hlast)
  | unreadable hrest hscan =>
    refine ⟨hinside, mid, hmarks, ?_⟩
    rw [hnext, inLine]
    change (match l.tokenStart.rest with | [] => _ | c :: cs => _) = _
    rw [hrest]
    dsimp only
    rw [hscan]
    rfl
  | @lexeme c cs kind hrest hscan =>
    have hopen : kind.keepsLineOpen = !decide (kind = .newline) := by
      obtain rfl | hkeeps := newline_or_keepsLineOpen_of_scan hscan
      · rfl
      · rw [hkeeps, decide_eq_false (by rintro rfl; exact Bool.noConfusion hkeeps)]
        rfl
    refine hmarks.trans (.cons ?_ (.nil _))
    rw [hnext, inLine]
    change (match l.tokenStart.rest with | [] => _ | c :: cs => _) = _
    rw [hrest]
    dsimp only
    rw [hscan, ofLexer]
    dsimp only [Lexer.afterLexeme]
    rw [hopen]
    rfl

/-- Ends of blocks that are owed are given out one after another. -/
theorem emits_owed (l : Lexer) (n : Nat) :
    Emits ⟨l, n, false⟩ (List.replicate n ⟨.dedent, l.here⟩) ⟨l, 0, false⟩ := by
  induction n with
  | zero => exact .nil _
  | succ n ih => exact .cons (by rw [next, if_pos (Nat.succ_pos n)]; rfl) ih

theorem next_ofLexer_inside {l : Lexer} (h : l.atLineStart = false) :
    (ofLexer l).next = inLine l true := by
  rw [ofLexer, h, next, if_neg (Nat.lt_irrefl 0), if_neg (by rw [h]; exact Bool.false_ne_true)]
  rfl

theorem next_ofLexer_lineStart {l : Lexer} (h : l.atLineStart = true) :
    (ofLexer l).next =
      match l.lineStart.rest with
      | [] => .ok (atEnd l.lineStart false)
      | c :: _ =>
        if c = '#' then
          .ok (l.lineStart.commentToken,
            ofLexer ((l.lineStart.advance l.lineStart.commentText.length).advance 1))
        else
          match l.lineStart.layout (indentWidth l.indentation) with
          | .error defect => .error (.invalid defect l.lineStart.here)
          | .ok ([], indents) =>
            inLine { l.lineStart with indents := indents, atLineStart := false } false
          | .ok (mark :: marks, indents) =>
            .ok (⟨mark, l.lineStart.here⟩,
              ⟨{ l.lineStart with indents := indents, atLineStart := false },
                marks.length, false⟩) := by
  have hafter : ofLexer ((l.lineStart.advance l.lineStart.commentText.length).advance 1) =
      ⟨(l.lineStart.advance l.lineStart.commentText.length).advance 1, 0, false⟩ := by
    rw [ofLexer, show ((l.lineStart.advance _).advance 1).atLineStart = l.atLineStart from rfl, h]
    rfl
  rw [hafter]
  rw [ofLexer, h, next, if_neg (Nat.lt_irrefl 0), if_pos h]
  rfl

/-- The marks of a line are given out in front of its first lexeme. -/
theorem emits_marks {l : Lexer} {c : Char} {cs : List Char} {marks : List Lexeme}
    {indents : List Nat} (hline : l.atLineStart = true) (hrest : l.lineStart.rest = c :: cs)
    (hmark : c ≠ '#')
    (hlayout : l.lineStart.layout (indentWidth l.indentation) = .ok (marks, indents)) :
    ∃ mid, Emits (ofLexer l) (marks.map (⟨·, l.lineStart.here⟩)) mid ∧
      (∀ k ∈ marks, k ≠ .eof) ∧
        mid.next =
          inLine { l.lineStart with indents := indents, atLineStart := false } false := by
  have hnext := next_ofLexer_lineStart hline
  rw [hrest] at hnext
  dsimp only at hnext
  rw [if_neg hmark, hlayout] at hnext
  cases marks with
  | nil => exact ⟨ofLexer l, .nil _, fun k hk => absurd hk List.not_mem_nil, hnext⟩
  | cons mark marks =>
    have hdedents : ∀ k ∈ marks, k = .dedent := by
      obtain ⟨-, hmarks, -⟩ | ⟨-, hmarks⟩ := Lexer.layout_cases hlayout
      · obtain rfl := (List.cons.inj hmarks).2
        exact fun k hk => absurd hk List.not_mem_nil
      · exact fun k hk => List.eq_of_mem_replicate (hmarks ▸ List.mem_cons_of_mem mark hk)
    have hmarks : marks.map (fun k => (⟨k, l.lineStart.here⟩ : Token)) =
        List.replicate marks.length ⟨.dedent, l.lineStart.here⟩ := by
      conv_lhs => rw [List.eq_replicate_of_mem hdedents]
      exact List.map_replicate
    refine ⟨⟨{ l.lineStart with indents := indents, atLineStart := false }, 0, false⟩, ?_, ?_, ?_⟩
    · rw [List.map_cons, hmarks]
      exact .cons hnext (emits_owed _ _)
    · have hfirst := Lexer.layout_sound hlayout
      exact fun k hk => (hfirst.1 k hk).1
    · rw [next, if_neg (Nat.lt_irrefl 0), if_neg Bool.false_ne_true]

theorem brings_step (l : Lexer) : (ofLexer l).Brings l.step := by
  have hstep := l.oneStep
  generalize l.step = s at hstep
  cases hstep with
  | inside hline h =>
    exact brings_inLine (.nil _) (fun t ht => absurd ht List.not_mem_nil)
      (next_ofLexer_inside hline) h
  | ended hline hrest =>
    refine gathered_closing hrest ?_
    rw [next_ofLexer_lineStart hline, hrest]
  | comment hline hrest =>
    refine .cons ?_ (.nil _)
    rw [next_ofLexer_lineStart hline, hrest]
    rfl
  | misplaced hline hrest hmark hlayout =>
    refine ⟨fun t ht => absurd ht List.not_mem_nil, ofLexer l, .nil _, ?_⟩
    rw [next_ofLexer_lineStart hline, hrest]
    dsimp only
    rw [if_neg hmark, hlayout]
  | line hline hrest hmark hlayout h =>
    obtain ⟨mid, hmarks, hinside, hnext⟩ := emits_marks hline hrest hmark hlayout
    refine brings_inLine (l := { l.lineStart with indents := _ }) hmarks (fun t ht => ?_) hnext h
    obtain ⟨k, hk, rfl⟩ := List.mem_map.mp ht
    exact hinside k hk

/-! ## All tokens of a text -/

namespace Emits

theorem potential (h : Emits r ts r') (hinside : ∀ t ∈ ts, t.kind ≠ .eof) :
    r'.potential + ts.length ≤ r.potential := by
  induction h with
  | nil => exact Nat.le_refl _
  | cons first _ ih =>
    have hfirst := potential_next first (hinside _ List.mem_cons_self)
    have hmore := ih fun t ht => hinside t (List.mem_cons_of_mem _ ht)
    rw [List.length_cons]
    omega

/-- Tokens that were given out stand first among those that are collected. -/
theorem collect (h : Emits r ts mid) (hinside : ∀ t ∈ ts, t.kind ≠ .eof) (n : Nat) :
    r.collect (ts.length + n) =
      (mid.collect n).map fun (later, fault) => (ts ++ later, fault) := by
  induction h with
  | nil =>
    rw [List.length_nil, Nat.zero_add]
    exact (congrFun Option.map_id _).symm
  | @cons r mid r' t ts first _ ih =>
    rw [List.length_cons, Nat.add_right_comm, Reader.collect, first]
    dsimp only
    rw [if_neg (hinside t List.mem_cons_self),
      ih fun t ht => hinside t (List.mem_cons_of_mem _ ht), Option.map_map]
    rfl

end Emits

/-- With enough steps, giving out tokens one by one gives those of a whole run. -/
theorem collect_ofLexer (l : Lexer) {n : Nat} (h : (ofLexer l).potential < n) :
    (ofLexer l).collect n = some l.run := by
  have hstep := brings_step l
  cases hl : l.step with
  | more tokens next =>
    rw [hl] at hstep
    have hsound := l.step_sound
    rw [hl] at hsound
    have hinside : ∀ t ∈ tokens, t.kind ≠ .eof := fun t ht => (hsound.1 t ht).1
    have hless := Emits.potential hstep hinside
    have hshort := Lexer.length_step hl
    obtain ⟨m, rfl⟩ := Nat.exists_eq_add_of_le (show tokens.length ≤ n by omega)
    rw [Emits.collect hstep hinside, collect_ofLexer next (by omega), Lexer.run_more hl]
    rfl
  | done tokens =>
    rw [hl] at hstep
    obtain ⟨init, t, mid, last, rfl, hinside, hend, hemits, hlast⟩ := hstep
    have hless := hemits.potential hinside
    obtain ⟨m, rfl⟩ := Nat.exists_eq_add_of_le (show init.length + 1 ≤ n by omega)
    rw [Nat.add_assoc, hemits.collect hinside, Nat.add_comm 1 m, collect, hlast,
      Lexer.run_done hl]
    dsimp only
    rw [if_pos hend]
    rfl
  | fault tokens defect span =>
    rw [hl] at hstep
    obtain ⟨hinside, mid, hemits, hfault⟩ := hstep
    have hless := hemits.potential hinside
    obtain ⟨m, rfl⟩ := Nat.exists_eq_add_of_le (show tokens.length + 1 ≤ n by omega)
    rw [Nat.add_assoc, hemits.collect hinside, Nat.add_comm 1 m, collect, hfault,
      Lexer.run_fault hl, Option.map_some]
    exact congrArg (fun ts => some (ts, _)) (List.append_nil tokens)
termination_by l.rest.length

theorem gathered_of_collect {n : Nat} (h : r.collect n = some (ts, none)) : r.Gathered ts := by
  induction n generalizing r ts with
  | zero => cases h
  | succ n ih =>
    unfold collect at h
    cases hnext : r.next with
    | error fault =>
      rw [hnext] at h
      cases h
    | ok out =>
      obtain ⟨t, r'⟩ := out
      rw [hnext] at h
      dsimp only at h
      by_cases hend : t.kind = .eof
      · rw [if_pos hend] at h
        obtain ⟨rfl, -⟩ := Prod.mk.inj (Option.some.inj h)
        exact ⟨[], t, r, r', rfl, fun t ht => absurd ht List.not_mem_nil, hend, .nil r, hnext⟩
      · rw [if_neg hend, Option.map_eq_some_iff] at h
        obtain ⟨⟨later, fault⟩, hlater, heq⟩ := h
        obtain ⟨rfl, rfl⟩ := Prod.mk.inj heq
        have hfirst : Emits r [t] r' := .cons hnext (.nil _)
        exact hfirst.gathered (List.forall_mem_singleton.mpr hend) (ih hlater)

end Reader

/-- Giving out the tokens of a text one by one ends, and gives what the text is read as.
Throughout, the open blocks are nested strictly from width zero, and they and the ends of blocks
that are owed make up the starts of blocks so far less the ends.  Tokens that are read to the end
have one end mark, which is the last of them, never more ends of blocks than starts, and in all as
many. -/
theorem indentation_is_balanced (source : String) :
    (∀ n, 3 * source.length < n → (Reader.start source).collect n = some (readTokens source)) ∧
      (∀ emitted r, (Reader.start source).Emits emitted r →
        r.stack.head? = some 0 ∧ r.stack.Pairwise (· < ·) ∧
          (r.stack.length - 1) + r.pending + blockEnds emitted = blockStarts emitted) ∧
      ∀ ts, tokens source = .ok ts →
        (∃ init span, ts = init ++ [⟨.eof, span⟩] ∧ ∀ t ∈ init, t.kind ≠ .eof) ∧
          (∀ p, p <+: ts → blockEnds p ≤ blockStarts p) ∧ blockEnds ts = blockStarts ts := by
  have hstart : Reader.start source = .ofLexer (.start source) := rfl
  have hpotential : (Reader.start source).potential = 3 * source.length := by
    simp [Reader.potential, Reader.start, Lexer.start, String.length_toList]
  have hcollect : ∀ n, 3 * source.length < n →
      (Reader.start source).collect n = some (readTokens source) := fun n hn => by
    rw [hstart, Reader.collect_ofLexer _ (by rw [← hstart, hpotential]; exact hn)]
    rfl
  have hblocks : ∀ emitted r, (Reader.start source).Emits emitted r →
      r.blocks + blockEnds emitted = blockStarts emitted := fun emitted r h => by
    rw [h.blocks]
    exact Nat.zero_add _
  refine ⟨hcollect, fun emitted r h => ⟨rfl, ?_, ?_⟩, fun ts hts => ?_⟩
  · exact h.nested (List.pairwise_singleton _ _)
  · have hsum := hblocks emitted r h
    simpa [Reader.stack, Reader.blocks] using hsum
  · have hread : readTokens source = (ts, none) := by
      unfold tokens at hts
      split at hts
      · next heq => rw [heq, Except.ok.inj hts]
      · cases hts
    obtain ⟨init, t, mid, last, rfl, hinside, hend, hemits, hlast⟩ :=
      Reader.gathered_of_collect ((hcollect _ (Nat.lt_succ_self _)).trans (congrArg some hread))
    have hall : (Reader.start source).Emits (init ++ [t]) last :=
      hemits.trans (.cons hlast (.nil _))
    refine ⟨⟨init, t.span, by rw [← hend], hinside⟩, ?_, ?_⟩
    · rintro p ⟨later, hp⟩
      obtain ⟨r, hprefix, -⟩ := Reader.Emits.split (hp ▸ hall)
      have hsum := hblocks p r hprefix
      omega
    · have hnone : last.blocks = 0 := by
        unfold Reader.blocks
        cases Reader.gives_next hlast with
        | last kind none indents pending pending' => rw [indents, pending']; rfl
        | owed kind => exact absurd (hend.symm.trans kind) Lexeme.noConfusion
        | opens kind => exact absurd (hend.symm.trans kind) Lexeme.noConfusion
        | closes kind => exact absurd (hend.symm.trans kind) Lexeme.noConfusion
        | lineEnd kind => exact absurd (hend.symm.trans kind) Lexeme.noConfusion
        | inner inside => exact absurd hend inside
      have hsum := hblocks _ last hall
      omega

end StagedScript.Syntax
