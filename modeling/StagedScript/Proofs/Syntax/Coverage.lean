import StagedScript.Proofs.Syntax.ScannedTokens
import StagedScript.Proofs.Syntax.Steps

/-!
# What the tokens of a text cover

The span of a token says exactly where it stands, tokens stand one after another,
and what no token covers separates tokens: blank space, joined lines, and
comments that do not have their line for themselves.
-/

namespace StagedScript.Syntax

open Text

variable {text : List Char} {ts us : List Token} {t : Token} {a b i j k : Nat}

/-- The line of the place after the first `i` characters. -/
def lineAt (text : List Char) (i : Nat) : Nat :=
  (text.take i).count '\n' + 1

/-- The column of the place after the first `i` characters, counted from the last line feed. -/
def columnAt (text : List Char) (i : Nat) : Nat :=
  ((text.take i).reverse.takeWhile (· != '\n')).length + 1

def stretch (text : List Char) (i j : Nat) : List Char :=
  (text.drop i).take (j - i)

/-- The span is a stretch of the text, and its line and column are those of its start. -/
structure ExactSpan (text : List Char) (s : Span) : Prop where
  ordered : s.start ≤ s.stop
  fits : s.stop ≤ text.length
  line : s.line = lineAt text s.start
  column : s.column = columnAt text s.start

/-- No token covers the character. -/
def Uncovered (ts : List Token) (i : Nat) : Prop :=
  ∀ t ∈ ts, ¬ (t.span.start ≤ i ∧ i < t.span.stop)

/-- How many brackets are open after the tokens. -/
def openBrackets (ts : List Token) : Nat :=
  ts.foldl (fun depth t => Lexer.depthAfter depth t.kind) 0

/-- How many brackets are open after the tokens that end before the place. -/
def bracketDepth (ts : List Token) (i : Nat) : Nat :=
  openBrackets (ts.filter (·.span.stop ≤ i))

/-- Spaces, tabs, carriage returns and joined lines. -/
inductive Spacing : List Char → Prop
  | nil : Spacing []
  | blank {c : Char} {cs : List Char} (blank : isIndentation c = true) :
    Spacing cs → Spacing (c :: cs)
  | join {cs : List Char} : Spacing cs → Spacing ('\\' :: '\n' :: cs)

def JoinsLines (text : List Char) (i : Nat) : Prop :=
  text[i]? = some '\\' ∧ text[i + 1]? = some '\n'

/-- Only spacing stands between the place and a token of the same logical line, or a joined line in
front of it. -/
def Trails (text : List Char) (ts : List Token) (i : Nat) : Prop :=
  ∃ k ≤ i, Spacing (stretch text k i) ∧
    ((∃ t ∈ ts, t.span.stop = k ∧ t.kind.keepsLineOpen = true) ∨ JoinsLines text k ∧ k < i)

/-- A comment starts here that does not have its line for itself: it is between brackets or it
trails. -/
def StartsComment (text : List Char) (ts : List Token) (i : Nat) : Prop :=
  text[i]? = some '#' ∧ (bracketDepth ts i ≠ 0 ∨ Trails text ts i)

/-- Why no token covers a character. -/
inductive Skipped (text : List Char) (ts : List Token) (i : Nat) : Prop
  | blank {c : Char} (char : text[i]? = some c) (blank : isIndentation c = true ∨ c = '\n')
  | comment (start : Nat) (before : start ≤ i) (starts : StartsComment text ts start)
      (same : ∀ m, start ≤ m → m ≤ i → Uncovered ts m ∧ text[m]? ≠ some '\n')
  | join (joins : JoinsLines text i)

theorem past_start (cs : List Char) :
    Position.start.past cs = ⟨cs.length, lineAt cs cs.length, columnAt cs cs.length⟩ := by
  unfold lineAt columnAt
  rw [List.take_length]
  induction cs using List.reverseRecOn with
  | nil => rfl
  | append_singleton cs c ih =>
    rw [Position.past_append, ih, Position.past_cons, Position.past_nil, Position.step,
      List.count_append, List.reverse_append, List.reverse_singleton, List.singleton_append,
      List.length_append]
    by_cases hc : c = '\n'
    · subst hc
      simp
    · rw [if_neg hc, List.takeWhile_cons_of_pos (by simp [hc])]
      simp [hc]

namespace Spacing

theorem append {cs ds : List Char} (h : Spacing cs) (h' : Spacing ds) : Spacing (cs ++ ds) := by
  induction h with
  | nil => exact h'
  | blank hblank _ ih => exact .blank hblank ih
  | join _ ih => exact .join ih

end Spacing

theorem stretch_append (h : i ≤ j) (h' : j ≤ k) :
    stretch text i j ++ stretch text j k = stretch text i k := by
  obtain ⟨m, rfl⟩ := Nat.exists_eq_add_of_le h
  obtain ⟨n, rfl⟩ := Nat.exists_eq_add_of_le h'
  unfold stretch
  rw [Nat.add_sub_cancel_left, Nat.add_sub_cancel_left, Nat.add_assoc, Nat.add_sub_cancel_left,
    List.take_add, List.drop_drop]

/-! ## Tokens so far -/

/-- More tokens behind a place change nothing in front of it. -/
def Behind (us : List Token) (a : Nat) : Prop :=
  ∀ u ∈ us, a ≤ u.span.start ∧ u.span.start ≤ u.span.stop

theorem outside_append (h : Behind us a) (hi : i < a) (hout : Uncovered ts i) :
    Uncovered (ts ++ us) i := by
  refine List.forall_mem_append.mpr ⟨hout, fun u hu hcovers => ?_⟩
  have := h u hu
  omega

theorem bracketDepth_append (h : Behind us a) (hi : i < a) :
    bracketDepth (ts ++ us) i = bracketDepth ts i := by
  have hnone : us.filter (·.span.stop ≤ i) = [] := by
    rw [List.filter_eq_nil_iff]
    intro u hu
    have := h u hu
    rw [decide_eq_true_iff]
    omega
  rw [bracketDepth, List.filter_append, hnone, List.append_nil, bracketDepth]

theorem Trails.append (h : Trails text ts i) : Trails text (ts ++ us) i := by
  obtain ⟨k, hk, hspacing, ⟨t, ht, hfollows⟩ | hjoin⟩ := h
  · exact ⟨k, hk, hspacing, .inl ⟨t, List.mem_append_left us ht, hfollows⟩⟩
  · exact ⟨k, hk, hspacing, .inr hjoin⟩

theorem StartsComment.append (h : StartsComment text ts i) (hus : Behind us a) (hi : i < a) :
    StartsComment text (ts ++ us) i := by
  obtain ⟨hmark, hdepth | htrails⟩ := h
  · exact ⟨hmark, .inl (by rwa [bracketDepth_append hus hi])⟩
  · exact ⟨hmark, .inr htrails.append⟩

theorem Skipped.append (h : Skipped text ts i) (hus : Behind us a) (hi : i < a) :
    Skipped text (ts ++ us) i := by
  cases h with
  | blank char blank => exact .blank char blank
  | comment start before starts same =>
    refine .comment start before (starts.append hus (Nat.lt_of_le_of_lt before hi)) ?_
    intro m hm hmi
    exact ⟨outside_append hus (Nat.lt_of_le_of_lt hmi hi) (same m hm hmi).1, (same m hm hmi).2⟩
  | join joins => exact .join joins

/-- The tokens stand in order in front of a place, and what they do not cover there is skipped. -/
structure Covers (text : List Char) (ts : List Token) (a : Nat) : Prop where
  exact : ∀ t ∈ ts, ExactSpan text t.span ∧ t.span.stop ≤ a
  ordered : ts.Pairwise fun t u => t.span.stop ≤ u.span.start
  skipped : ∀ i < a, Uncovered ts i → Skipped text ts i

namespace Covers

theorem outside (h : Covers text ts a) (hi : a ≤ i) : Uncovered ts i := by
  intro t ht hcovers
  have := (h.exact t ht).2
  omega

theorem skip (h : Covers text ts a) (hle : a ≤ b)
    (hskip : ∀ i, a ≤ i → i < b → Skipped text ts i) : Covers text ts b where
  exact t ht := ⟨(h.exact t ht).1, Nat.le_trans (h.exact t ht).2 hle⟩
  ordered := h.ordered
  skipped i hi hout := by
    by_cases hia : i < a
    · exact h.skipped i hia hout
    · exact hskip i (Nat.le_of_not_lt hia) hi

theorem token (h : Covers text ts a) (hexact : ExactSpan text t.span) (hstart : t.span.start = a) :
    Covers text (ts ++ [t]) t.span.stop where
  exact := by
    refine List.forall_mem_append.mpr ⟨fun u hu => ⟨(h.exact u hu).1, ?_⟩, ?_⟩
    · exact Nat.le_trans (h.exact u hu).2 (hstart ▸ hexact.ordered)
    · exact List.forall_mem_singleton.mpr ⟨hexact, Nat.le_refl _⟩
  ordered := by
    refine List.pairwise_append.mpr ⟨h.ordered, List.pairwise_singleton _ _, fun u hu v hv => ?_⟩
    obtain rfl := List.mem_singleton.mp hv
    exact hstart ▸ (h.exact u hu).2
  skipped i hi hout := by
    obtain ⟨hbefore, hlast⟩ := List.forall_mem_append.mp hout
    have hia : i < a := by
      have := List.forall_mem_singleton.mp hlast
      omega
    exact (h.skipped i hia hbefore).append
      (List.forall_mem_singleton.mpr ⟨Nat.le_of_eq hstart.symm, hexact.ordered⟩) hia

/-- Marks without characters of their own. -/
theorem marks (h : Covers text ts a) (ks : List Lexeme) {s : Span} (hexact : ExactSpan text s)
    (hstart : s.start = a) (hstop : s.stop = a) : Covers text (ts ++ ks.map (⟨·, s⟩)) a := by
  induction ks generalizing ts with
  | nil =>
    rw [List.map_nil, List.append_nil]
    exact h
  | cons k ks ih =>
    have hfirst := h.token (t := ⟨k, s⟩) hexact hstart
    rw [hstop] at hfirst
    rw [List.map_cons, List.append_cons]
    exact ih hfirst

end Covers

/-! ## Blank space -/

theorem drop_eq_cons {c : Char} {cs : List Char} (h : text.drop a = c :: cs) :
    text[a]? = some c ∧ text.drop (a + 1) = cs := by
  constructor
  · rw [← List.head?_drop, h]
    rfl
  · rw [← List.drop_drop, h]
    rfl

theorem stretch_succ {c : Char} {cs : List Char} (h : text.drop a = c :: cs) :
    stretch text a (a + 1) = [c] := by
  rw [stretch, h, Nat.add_sub_cancel_left]
  rfl

theorem Trails.blank {c : Char} {cs : List Char} (h : Trails text ts a)
    (hdrop : text.drop a = c :: cs) (hc : isIndentation c = true) : Trails text ts (a + 1) := by
  obtain ⟨k, hk, hspacing, hfollows⟩ := h
  refine ⟨k, Nat.le_succ_of_le hk, ?_, hfollows.imp_right fun hjoin => ⟨hjoin.1, by omega⟩⟩
  rw [← stretch_append hk (Nat.le_succ a), stretch_succ hdrop]
  exact hspacing.append (.blank hc .nil)

theorem stretch_join {cs : List Char} (h : text.drop a = '\\' :: '\n' :: cs) :
    JoinsLines text a ∧ Spacing (stretch text a (a + 2)) := by
  obtain ⟨hfirst, hsecond⟩ := drop_eq_cons h
  refine ⟨⟨hfirst, (drop_eq_cons hsecond).1⟩, ?_⟩
  rw [stretch, h, Nat.add_sub_cancel_left]
  exact .join .nil

theorem Trails.join {cs : List Char} (h : Trails text ts a)
    (hdrop : text.drop a = '\\' :: '\n' :: cs) : Trails text ts (a + 2) := by
  obtain ⟨k, hk, hspacing, hfollows⟩ := h
  refine ⟨k, by omega, ?_, hfollows.imp_right fun hjoin => ⟨hjoin.1, by omega⟩⟩
  rw [← stretch_append hk (Nat.le_add_right a 2)]
  exact hspacing.append (stretch_join hdrop).2

/-- The place is in a comment that started at the base or after it. -/
def InComment (text : List Char) (ts : List Token) (base a : Nat) : Prop :=
  ∃ start, base ≤ start ∧ start < a ∧ StartsComment text ts start ∧
    ∀ m, start ≤ m → m < a → text[m]? ≠ some '\n'

theorem InComment.next {c : Char} {cs : List Char} {base : Nat} (h : InComment text ts base a)
    (hdrop : text.drop a = c :: cs) (hc : c ≠ '\n') : InComment text ts base (a + 1) := by
  obtain ⟨start, hbase, hstart, hstarts, hsame⟩ := h
  refine ⟨start, hbase, by omega, hstarts, fun m hm hma => ?_⟩
  obtain hma | rfl := Nat.lt_or_eq_of_le (Nat.le_of_lt_succ hma)
  · exact hsame m hm hma
  · rw [(drop_eq_cons hdrop).1]
    exact fun heq => hc (Option.some.inj heq)

/-- Where blank space is read: in a comment, or where a comment may start. -/
def BlankAt (text : List Char) (ts : List Token) (inBrackets inComment : Bool) (base a : Nat) :
    Prop :=
  if inComment then InComment text ts base a else inBrackets = false → Trails text ts a

theorem skipped_cons (hfirst : Skipped text ts a)
    (hothers : ∀ i, a + 1 ≤ i → i < b → Skipped text ts i) :
    ∀ i, a ≤ i → i < b → Skipped text ts i := by
  intro i hi hib
  obtain rfl | hai := Nat.eq_or_lt_of_le hi
  · exact hfirst
  · exact hothers i hai hib

/-- Blank space between two tokens is skipped. -/
theorem skipped_blank (inBrackets inComment : Bool) {base a : Nat}
    (hout : ∀ m, base ≤ m → Uncovered ts m)
    (hbrackets : inBrackets = true → ∀ m, base ≤ m → bracketDepth ts m ≠ 0) (hbase : base ≤ a)
    (hplace : BlankAt text ts inBrackets inComment base a) :
    ∀ i, a ≤ i → i < a + blankLength inBrackets inComment (text.drop a) → Skipped text ts i := by
  generalize hdrop : text.drop a = cs
  have hnext : base ≤ a + 1 := Nat.le_succ_of_le hbase
  fun_induction blankLength inBrackets inComment cs generalizing a with
  | case1 => exact fun i hi hia => absurd hi (Nat.not_le_of_lt hia)
  | case2 inComment cs hinside ih =>
    -- A line feed between brackets ends a comment.
    obtain ⟨hfeed, htail⟩ := drop_eq_cons hdrop
    rw [← Nat.add_assoc, Nat.add_right_comm]
    refine skipped_cons (.blank hfeed (.inr rfl)) (ih hnext ?_ htail (Nat.le_succ_of_le hnext))
    exact fun houtside => absurd (hinside.symm.trans houtside) Bool.true_eq_false.mp
  | case3 => exact fun i hi hia => absurd hi (Nat.not_le_of_lt hia)
  | case4 c cs hc ih =>
    have hcomment := InComment.next hplace hdrop hc
    rw [← Nat.add_assoc, Nat.add_right_comm]
    refine skipped_cons ?_ (ih hnext hcomment (drop_eq_cons hdrop).2 (Nat.le_succ_of_le hnext))
    obtain ⟨start, hstart, hbefore, hstarts, hsame⟩ := hcomment
    refine .comment start (Nat.le_of_lt_succ hbefore) hstarts fun m hm hma => ?_
    exact ⟨hout m (Nat.le_trans hstart hm), hsame m hm (Nat.lt_succ_of_le hma)⟩
  | case5 inComment c cs hfeed hline hblank ih =>
    obtain ⟨hfirst, htail⟩ := drop_eq_cons hdrop
    have hindent : isIndentation c = true := by simpa [isIndentation, or_assoc] using hblank
    rw [BlankAt, if_neg hline] at hplace
    rw [← Nat.add_assoc, Nat.add_right_comm]
    exact skipped_cons (.blank hfirst (.inl hindent)) (ih hnext
      (fun houtside => (hplace houtside).blank hdrop hindent) htail (Nat.le_succ_of_le hnext))
  | case6 inComment cs hline hfeed hblank ih =>
    obtain ⟨hmark, htail⟩ := drop_eq_cons hdrop
    rw [BlankAt, if_neg hline] at hplace
    have hstarts : StartsComment text ts a := by
      refine ⟨hmark, ?_⟩
      cases inBrackets with
      | true => exact .inl (hbrackets rfl a hbase)
      | false => exact .inr (hplace rfl)
    have hsame : ∀ m, a ≤ m → m < a + 1 → text[m]? ≠ some '\n' := by
      intro m hm hma
      obtain rfl : a = m := by omega
      rw [hmark]
      decide
    rw [← Nat.add_assoc, Nat.add_right_comm]
    refine skipped_cons ?_ (ih hnext ⟨a, hbase, Nat.lt_succ_self a, hstarts, hsame⟩ htail
      (Nat.le_succ_of_le hnext))
    exact .comment a (Nat.le_refl a) hstarts fun m hm hma =>
      ⟨hout m (Nat.le_trans hbase hm), hsame m hm (Nat.lt_succ_of_le hma)⟩
  | case7 inComment hline rest hfeed hblank hmark ih =>
    obtain ⟨hjoins, -⟩ := stretch_join hdrop
    obtain ⟨-, htail⟩ := drop_eq_cons (drop_eq_cons hdrop).2
    rw [BlankAt, if_neg hline] at hplace
    rw [← Nat.add_assoc, Nat.add_right_comm]
    refine skipped_cons (.join hjoins) (skipped_cons (.blank hjoins.2 (.inr rfl)) ?_)
    exact ih (Nat.le_succ_of_le hnext) (fun houtside => (hplace houtside).join hdrop) htail
      (Nat.le_succ_of_le (Nat.le_succ_of_le hnext))
  | case8 => exact fun i hi hia => absurd hi (Nat.not_le_of_lt hia)
  | case9 => exact fun i hi hia => absurd hi (Nat.not_le_of_lt hia)

/-- A line that starts with spacing starts with joined lines. -/
theorem skipped_line {inBrackets : Bool} {c : Char} {cs : List Char}
    (hout : ∀ m, a ≤ m → Uncovered ts m)
    (hbrackets : inBrackets = true → ∀ m, a ≤ m → bracketDepth ts m ≠ 0)
    (hdrop : text.drop a = c :: cs) (hfeed : c ≠ '\n') (hblank : isIndentation c = false)
    (hmark : c ≠ '#') :
    ∀ i, a ≤ i → i < a + blankLength inBrackets false (text.drop a) → Skipped text ts i := by
  have hspaces : ¬(c = ' ' ∨ c = '\t' ∨ c = '\r') := by
    simpa [isIndentation, not_or, and_assoc] using hblank
  rw [hdrop, blankLength.eq_def]
  dsimp only
  rw [if_neg hfeed, if_neg Bool.false_ne_true, if_neg hspaces, if_neg hmark]
  split
  · next rest =>
    split
    · next hjoin =>
      subst hjoin
      obtain ⟨hjoins, hspacing⟩ := stretch_join hdrop
      have htail := (drop_eq_cons (drop_eq_cons hdrop).2).2
      have htrails : Trails text ts (a + 2) :=
        ⟨a, Nat.le_add_right a 2, hspacing, .inr ⟨hjoins, by omega⟩⟩
      rw [← htail, ← Nat.add_assoc, Nat.add_right_comm]
      exact skipped_cons (.join hjoins) (skipped_cons (.blank hjoins.2 (.inr rfl))
        (skipped_blank _ _ hout hbrackets (Nat.le_add_right a 2) fun _ => htrails))
    · exact fun i hi hia => absurd hi (Nat.not_le_of_lt hia)
  · exact fun i hi hia => absurd hi (Nat.not_le_of_lt hia)

theorem drop_takeWhile (p : Char → Bool) (cs : List Char) :
    cs.drop (cs.takeWhile p).length = cs.dropWhile p := by
  calc cs.drop (cs.takeWhile p).length
      = (cs.takeWhile p ++ cs.dropWhile p).drop (cs.takeWhile p).length := by
        rw [List.takeWhile_append_dropWhile]
    _ = cs.dropWhile p := List.drop_left

/-- An empty line in front of a text. -/
theorem eq_emptyLine {cs rest : List Char}
    (h : cs.drop (cs.takeWhile isIndentation).length = '\n' :: rest) :
    cs = cs.takeWhile isIndentation ++ '\n' :: rest := by
  rw [drop_takeWhile] at h
  rw [← h, List.takeWhile_append_dropWhile]

/-- Empty lines are blank space and line feeds. -/
theorem blank_emptyLines (cs : List Char) :
    ∀ c ∈ cs.take (emptyLinesLength cs), isIndentation c = true ∨ c = '\n' := by
  fun_induction emptyLinesLength cs with
  | case1 cs blanks rest heq ih =>
    intro c hc
    rw [eq_emptyLine heq, Nat.add_assoc, Nat.add_comm (emptyLinesLength rest),
      Nat.add_assoc, List.take_length_add_append, Nat.add_comm 1, List.take_succ_cons,
      List.mem_append, List.mem_cons] at hc
    rcases hc with hc | rfl | hc
    · exact .inl (List.mem_takeWhile_imp hc)
    · exact .inr rfl
    · exact ih c hc
  | case2 => simp

/-- The next line that is not empty starts with neither blank space nor a line feed. -/
theorem solid_emptyLines {cs ds : List Char} {c : Char}
    (h : (cs.drop (emptyLinesLength cs)).dropWhile isIndentation = c :: ds) :
    isIndentation c = false ∧ c ≠ '\n' := by
  fun_induction emptyLinesLength cs with
  | case1 cs blanks rest heq ih =>
    refine ih ?_
    rwa [eq_emptyLine heq, Nat.add_assoc, Nat.add_comm, Nat.add_assoc, List.drop_length_add_append,
      Nat.add_comm 1, List.drop_succ_cons] at h
  | case2 cs blanks hfeed =>
    have hfirst := List.head?_dropWhile_not isIndentation cs
    rw [List.drop_zero] at h
    rw [h] at hfirst
    refine ⟨hfirst, ?_⟩
    rintro rfl
    exact hfeed ds ((drop_takeWhile _ cs).trans h)

/-! ## Reading on -/

namespace Lexer

variable {l : Lexer}

/-- Reading stands at its offset in the text. -/
structure Located (text : List Char) (l : Lexer) : Prop where
  rest : l.rest = text.drop l.position.offset
  fits : l.position.offset ≤ text.length
  position : l.position = Position.start.past (text.take l.position.offset)

namespace Located

theorem offset_advance (l : Lexer) (n : Nat) :
    (l.advance n).position.offset = l.position.offset + min n l.rest.length := by
  rw [advance, Position.offset_past, List.length_take]

theorem advance (h : l.Located text) (n : Nat) : (l.advance n).Located text := by
  have hlength : l.rest.length = text.length - l.position.offset := by
    rw [h.rest, List.length_drop]
  have hfits := h.fits
  have hoffset := offset_advance l n
  refine ⟨?_, by omega, ?_⟩
  · rw [hoffset, rest_advance, h.rest, List.drop_drop]
    obtain hle | hlt := Nat.lt_or_ge l.rest.length n |>.symm
    · rw [← h.rest, Nat.min_eq_left hle]
    · rw [← h.rest, Nat.min_eq_right (Nat.le_of_lt hlt), List.drop_eq_nil_of_le (by omega),
        List.drop_eq_nil_of_le (by omega)]
  · rw [hoffset, List.take_add, Position.past_append, ← h.position, ← h.rest, Lexer.advance,
      ← List.take_take, List.take_length]

theorem exact (h : l.Located text) (n : Nat) :
    ExactSpan text (.between l.position (l.advance n).position) where
  ordered := Nat.le_trans (Nat.le_add_right _ _) (Nat.le_of_eq (offset_advance l n).symm)
  fits := (h.advance n).fits
  line := by
    rw [Span.between, congrArg Position.line h.position, past_start, lineAt, List.take_length]
    rfl
  column := by
    rw [Span.between, congrArg Position.column h.position, past_start, columnAt, List.take_length]
    rfl

theorem exact_here (h : l.Located text) : ExactSpan text l.here := by
  have hexact := h.exact 0
  rwa [advance_zero] at hexact

end Located

/-- Reading stands behind the tokens so far, and the last of them shows whether a line is open. -/
structure Reads (text : List Char) (before : List Token) (l : Lexer) : Prop where
  located : l.Located text
  depth : l.depth = openBrackets before
  covers : Covers text before l.position.offset
  follows : l.atLineStart = false →
    ∃ t ∈ before, t.span.stop = l.position.offset ∧ t.kind.keepsLineOpen = true

/-- After a step the tokens cover what was read. -/
def Step.Reads (text : List Char) (before : List Token) : Step → Prop
  | .more tokens next => next.Reads text (before ++ tokens)
  | .done tokens => Covers text (before ++ tokens) text.length
  | .fault _ _ _ => True

theorem start_reads (source : String) : (start source).Reads source.toList [] where
  located := ⟨rfl, Nat.zero_le _, rfl⟩
  depth := rfl
  covers :=
    ⟨fun _ ht => absurd ht List.not_mem_nil, .nil, fun i hi => absurd hi (Nat.not_lt_zero i)⟩
  follows h := absurd h Bool.true_eq_false.mp

/-- At the end of the text the tokens cover all of it. -/
theorem covers_closing (h : l.Located text) (hrest : l.rest = [])
    (hcovers : Covers text ts l.position.offset) (lineOpen : Bool) :
    Covers text (ts ++ l.closing lineOpen) text.length := by
  have hend : l.position.offset = text.length := by
    have hlength := congrArg List.length (h.rest.symm.trans hrest)
    rw [List.length_drop] at hlength
    have := h.fits
    simp only [List.length_nil] at hlength
    omega
  rw [← hend]
  exact hcovers.marks _ h.exact_here rfl rfl

theorem bracketDepth_of_covers (h : Covers text ts a) (hi : a ≤ i) :
    bracketDepth ts i = openBrackets ts := by
  have hall : ts.filter (·.span.stop ≤ i) = ts := by
    rw [List.filter_eq_self]
    exact fun t ht => decide_eq_true (Nat.le_trans (h.exact t ht).2 hi)
  rw [bracketDepth, hall]

/-- A lexeme after blank space that is skipped. -/
theorem inLine_reads {before : List Token} (marks : List Token) {lineOpen : Bool} {s : Step}
    (hlocated : l.Located text) (hdepth : l.depth = openBrackets (before ++ marks))
    (hcovers : Covers text (before ++ marks) l.position.offset)
    (hskip : ∀ i, l.position.offset ≤ i →
      i < l.position.offset + blankLength (l.depth != 0) false (text.drop l.position.offset) →
        Skipped text (before ++ marks) i)
    (h : l.InLine marks lineOpen s) : s.Reads text before := by
  have hstart : l.tokenStart.Located text := hlocated.advance _
  have hoffset : l.tokenStart.position.offset = l.position.offset +
      min (blankLength (l.depth != 0) false l.rest) l.rest.length := Located.offset_advance l _
  have hcovers : Covers text (before ++ marks) l.tokenStart.position.offset := by
    refine hcovers.skip (by omega) fun i hi hib => hskip i hi ?_
    rw [← hlocated.rest]
    omega
  cases h with
  | ended hrest =>
    show Covers text (before ++ (marks ++ _)) _
    rw [← List.append_assoc]
    exact covers_closing hstart hrest hcovers lineOpen
  | unreadable => trivial
  | @lexeme c cs kind hrest hscan =>
    show Lexer.Reads text (before ++ (marks ++ _)) _
    rw [← List.append_assoc]
    have hnext := hstart.advance (scanLexeme (c :: cs)).length
    refine ⟨⟨hnext.rest, hnext.fits, hnext.position⟩, ?_, hcovers.token (hstart.exact _) rfl,
      fun hline => ?_⟩
    · rw [openBrackets, List.foldl_append, ← openBrackets, ← hdepth]
      rfl
    · refine ⟨_, List.mem_append_right _ List.mem_cons_self, rfl, ?_⟩
      exact (newline_or_keepsLineOpen_of_scan hscan).resolve_left (of_decide_eq_false hline)

/-- A comment reaches up to the end of its line. -/
theorem eq_of_mem_lineEnd {cs : List Char} {c : Char}
    (h : c ∈ (cs.dropWhile (· != '\n')).take 1) : c = '\n' := by
  have hfirst := List.head?_dropWhile_not (· != '\n') cs
  cases hrest : cs.dropWhile (· != '\n') with
  | nil =>
    rw [hrest] at h
    exact absurd h List.not_mem_nil
  | cons d ds =>
    rw [hrest] at h hfirst
    obtain rfl := List.mem_singleton.mp h
    simpa using hfirst

/-- Marks of blocks open and close no brackets. -/
theorem openBrackets_marks {before : List Token} {ks : List Lexeme} {s : Span}
    (h : ∀ k ∈ ks, k = .indent ∨ k = .dedent) :
    openBrackets (before ++ ks.map (⟨·, s⟩)) = openBrackets before := by
  induction ks generalizing before with
  | nil => rw [List.map_nil, List.append_nil]
  | cons k ks ih =>
    obtain ⟨hfirst, hothers⟩ := List.forall_mem_cons.mp h
    rw [List.map_cons, List.append_cons, ih hothers, openBrackets, List.foldl_append]
    obtain rfl | rfl := hfirst <;> rfl

theorem covers_blank (hlocated : l.Located text) (h : Covers text ts l.position.offset) {n : Nat}
    (hblank : ∀ c ∈ l.rest.take n, isIndentation c = true ∨ c = '\n') :
    Covers text ts (l.advance n).position.offset := by
  rw [Located.offset_advance]
  refine h.skip (Nat.le_add_right _ _) fun i hi hib => ?_
  obtain ⟨m, rfl⟩ := Nat.exists_eq_add_of_le hi
  have hm : m < (l.rest.take n).length := by
    rw [List.length_take]
    omega
  have hchar : text[l.position.offset + m]? = some (l.rest.take n)[m] := by
    rw [← List.getElem?_drop, ← hlocated.rest, ← List.getElem?_eq_getElem hm,
      List.getElem?_take_of_lt (by omega)]
  exact .blank hchar (hblank _ (List.getElem_mem hm))

/-- Empty lines and the indentation of the next line are skipped. -/
theorem covers_lineStart (hlocated : l.Located text) (h : Covers text ts l.position.offset) :
    Covers text ts l.lineStart.position.offset := by
  refine covers_blank (hlocated.advance _) (covers_blank hlocated h (blank_emptyLines l.rest)) ?_
  intro c hc
  rw [indentation, ← List.prefix_iff_eq_take.mp (List.takeWhile_prefix _)] at hc
  exact .inl (List.mem_takeWhile_imp hc)

theorem rest_lineStart (l : Lexer) :
    l.lineStart.rest = (l.rest.drop (emptyLinesLength l.rest)).dropWhile isIndentation :=
  drop_takeWhile ..

theorem lineStart_solid {c : Char} {cs : List Char} (h : l.lineStart.rest = c :: cs) :
    isIndentation c = false ∧ c ≠ '\n' :=
  solid_emptyLines ((rest_lineStart l).symm.trans h)

theorem step_reads {before : List Token} (h : l.Reads text before) : l.step.Reads text before := by
  have hstep := l.oneStep
  have hstart : l.lineStart.Located text := (h.located.advance _).advance _
  have hcovers := covers_lineStart h.located h.covers
  generalize l.step = s at hstep
  cases hstep with
  | inside hline h' =>
    obtain ⟨t, ht, hstop, hopen⟩ := h.follows hline
    have htrails : Trails text before l.position.offset := by
      refine ⟨_, Nat.le_refl _, ?_, .inl ⟨t, ht, hstop, hopen⟩⟩
      rw [stretch, Nat.sub_self]
      exact .nil
    have hskip := skipped_blank (l.depth != 0) false
      (fun m => h.covers.outside) (fun hdepth m hm => ?_) (Nat.le_refl _) fun _ => htrails
    · refine inLine_reads [] h.located ?_ ?_ ?_ h' <;> rw [List.append_nil]
      · exact h.depth
      · exact h.covers
      · exact hskip
    · rw [bracketDepth_of_covers h.covers hm, ← h.depth]
      simpa using hdepth
  | ended hline hrest => exact covers_closing hstart hrest hcovers false
  | @comment cs hline hrest =>
    have htoken := hcovers.token (t := l.lineStart.commentToken) (hstart.exact _) rfl
    have hafter := hstart.advance l.lineStart.commentText.length
    refine ⟨hafter.advance 1, ?_, covers_blank hafter htoken fun c hc => ?_, fun hinside => ?_⟩
    · rw [openBrackets, List.foldl_append, ← openBrackets, ← h.depth]
      rfl
    · rw [commentText, rest_advance, drop_takeWhile] at hc
      exact .inr (eq_of_mem_lineEnd hc)
    · exact absurd (hline.symm.trans hinside) Bool.true_eq_false.mp
  | misplaced => trivial
  | @line c cs marks indents s hline hrest hmark hlayout h' =>
    obtain ⟨hblank, hfeed⟩ := lineStart_solid hrest
    have hmarks := hcovers.marks marks hstart.exact_here rfl rfl
    have hdepth : openBrackets (before ++ marks.map (⟨·, l.lineStart.here⟩)) = l.depth := by
      rw [openBrackets_marks (layout_kinds hlayout), h.depth]
    refine inLine_reads (l := { l.lineStart with indents := indents }) _
      ⟨hstart.rest, hstart.fits, hstart.position⟩ hdepth.symm hmarks ?_ h'
    refine skipped_line (fun m => hmarks.outside) (fun hbrackets m hm => ?_)
      (hstart.rest.symm.trans hrest) hfeed hblank hmark
    have hopen : (l.depth != 0) = true := hbrackets
    rw [bracketDepth_of_covers hmarks hm, hdepth]
    simpa using hopen

/-- Reading to the end covers the text. -/
theorem run_reads (l : Lexer) {before : List Token} (h : l.Reads text before)
    (hnone : l.run.2 = none) : Covers text (before ++ l.run.1) text.length := by
  refine run_induction (P := fun l ts => ∀ before, l.Reads text before →
    Covers text (before ++ ts) text.length) ?done ?more l hnone before h
  case done =>
    intro l tokens hl before h
    have hstep := step_reads h
    rw [hl] at hstep
    exact hstep
  case more =>
    intro l tokens next later hl ih before h
    have hstep := step_reads h
    rw [hl] at hstep
    rw [← List.append_assoc]
    exact ih (before ++ tokens) hstep

end Lexer

/-- The span of each token is exact, tokens stand in order, and every character that no token covers
is blank space, a line feed, the backslash of a joined line or part of a comment that trails or
stands between brackets. -/
theorem tokens_cover {source : String} {ts : List Token} (h : tokens source = .ok ts) :
    (∀ t ∈ ts, ExactSpan source.toList t.span) ∧
      (ts.Pairwise fun t u => t.span.stop ≤ u.span.start) ∧
      ∀ i < source.length, Uncovered ts i → Skipped source.toList ts i := by
  have hcovers : Covers source.toList ts source.toList.length := by
    unfold tokens at h
    split at h
    · next heq =>
      obtain rfl := Except.ok.inj h
      have hrun := Lexer.run_reads _ (Lexer.start_reads source) (congrArg Prod.snd heq)
      rwa [List.nil_append, show (Lexer.start source).run.1 = _ from congrArg Prod.fst heq] at hrun
    · cases h
  rw [← String.length_toList]
  exact ⟨fun t ht => (hcovers.exact t ht).1, hcovers.ordered, hcovers.skipped⟩

/-- The comment between the brackets of a call is covered by no token. -/
theorem tokens_cover_call : ∃ ts, tokens "f(1, # one\n2)" = .ok ts ∧
    (∀ t ∈ ts, ExactSpan "f(1, # one\n2)".toList t.span) ∧
    (ts.Pairwise fun t u => t.span.stop ≤ u.span.start) ∧
    (∀ i < "f(1, # one\n2)".length, Uncovered ts i → Skipped "f(1, # one\n2)".toList ts i) ∧
    Uncovered ts 5 := by
  have htokens : tokens "f(1, # one\n2)" = .ok
      [⟨.identifier "f", 0, 1, 1, 1⟩, ⟨.symbol .leftParen, 1, 2, 1, 2⟩, ⟨.integer 1, 2, 3, 1, 3⟩,
        ⟨.symbol .comma, 3, 4, 1, 4⟩, ⟨.integer 2, 11, 12, 2, 1⟩,
        ⟨.symbol .rightParen, 12, 13, 2, 2⟩, ⟨.newline, 13, 13, 2, 3⟩, ⟨.eof, 13, 13, 2, 3⟩] := by
    decide +kernel
  obtain ⟨hexact, hordered, hskipped⟩ := tokens_cover htokens
  exact ⟨_, htokens, hexact, hordered, hskipped, by simp [Uncovered]⟩

end StagedScript.Syntax
