import StagedScript.Proofs.Syntax.RoundTrip
import StagedScript.Proofs.Syntax.Coverage

/-!
# Line endings

Where each line feed of a text gets a carriage return in front of it, the tokens
stay the same, as long as no string goes over a line end and no line is joined to
the next one.  A joined line does not stay one: its backslash must stand directly
in front of the line feed.
-/

namespace StagedScript.Syntax

open Text

/-- The text with a carriage return in front of each line feed. -/
def returned (cs : List Char) : List Char :=
  cs.flatMap fun c => if c = '\n' then ['\r', '\n'] else [c]

@[simp]
theorem returned_nil : returned [] = [] := rfl

@[simp]
theorem returned_feed (cs : List Char) : returned ('\n' :: cs) = '\r' :: '\n' :: returned cs := rfl

theorem returned_cons {c : Char} (hc : c ≠ '\n') (cs : List Char) :
    returned (c :: cs) = c :: returned cs := by
  rw [returned, List.flatMap_cons, if_neg hc]
  rfl

theorem eq_cons_of_returned {cs ds : List Char} {c : Char} (h : returned cs = c :: ds)
    (hc : c ≠ '\r') : ∃ es, cs = c :: es ∧ returned es = ds := by
  cases cs with
  | nil => cases h
  | cons d es =>
    by_cases hd : d = '\n'
    · subst hd
      exact absurd (List.cons.inj h).1.symm hc
    · rw [returned_cons hd] at h
      obtain ⟨rfl, htail⟩ := List.cons.inj h
      exact ⟨es, rfl, htail⟩

theorem returned_append (cs ds : List Char) : returned (cs ++ ds) = returned cs ++ returned ds :=
  List.flatMap_append

theorem returned_of_notMem {cs : List Char} (h : '\n' ∉ cs) : returned cs = cs := by
  induction cs with
  | nil => rfl
  | cons c cs ih =>
    obtain ⟨hc, hcs⟩ := not_or.mp (mt List.mem_cons.mpr h)
    rw [returned_cons (Ne.symm hc), ih hcs]

/-- The first `n` characters have no line feed. -/
def OneLine (cs : List Char) (n : Nat) : Prop :=
  '\n' ∉ cs.take n

namespace OneLine

variable {cs : List Char} {m n : Nat}

theorem zero (cs : List Char) : OneLine cs 0 :=
  List.not_mem_nil

theorem cons_iff {c : Char} : OneLine (c :: cs) (1 + n) ↔ c ≠ '\n' ∧ OneLine cs n := by
  rw [OneLine, Nat.add_comm, List.take_succ_cons, List.mem_cons, not_or, OneLine, ne_comm]

theorem cons {c : Char} (hc : c ≠ '\n') (h : OneLine cs n) : OneLine (c :: cs) (1 + n) :=
  cons_iff.mpr ⟨hc, h⟩

theorem add_iff : OneLine cs (m + n) ↔ OneLine cs m ∧ OneLine (cs.drop m) n := by
  rw [OneLine, List.take_add, List.mem_append, not_or]
  rfl

theorem add (h : OneLine cs m) (h' : OneLine (cs.drop m) n) : OneLine cs (m + n) :=
  add_iff.mpr ⟨h, h'⟩

theorem drop (h : OneLine cs n) : (returned cs).drop n = returned (cs.drop n) := by
  conv_lhs => rw [← List.take_append_drop n cs, returned_append, returned_of_notMem h]
  obtain hle | hlt := Nat.lt_or_ge cs.length n |>.symm
  · exact List.drop_left' (List.length_take_of_le hle)
  · rw [List.drop_eq_nil_of_le (Nat.le_of_lt hlt), returned_nil, List.append_nil,
      List.drop_eq_nil_of_le (Nat.le_trans (List.length_take_le n cs) (Nat.le_refl n))]

theorem option {α : Type} {part : Option (α × Nat)}
    (h : ∀ x n, part = some (x, n) → OneLine cs n) : OneLine cs ((part.map (·.2)).getD 0) := by
  cases part with
  | none => exact .zero cs
  | some part => exact h part.1 part.2 rfl

theorem takeWhile {p : Char → Bool} (hfeed : p '\n' = false) (cs : List Char) :
    OneLine cs (cs.takeWhile p).length := by
  intro hmem
  rw [← List.prefix_iff_eq_take.mp (List.takeWhile_prefix p)] at hmem
  exact Bool.false_ne_true (hfeed.symm.trans (List.mem_takeWhile_imp hmem))

end OneLine

theorem takeWhile_returned {p : Char → Bool} (hfeed : p '\n' = false) (hreturn : p '\r' = false)
    (cs : List Char) : (returned cs).takeWhile p = cs.takeWhile p := by
  induction cs with
  | nil => rfl
  | cons c cs ih =>
    by_cases hc : c = '\n'
    · subst hc
      rw [returned_feed, List.takeWhile_cons_of_neg (by simp [hreturn]),
        List.takeWhile_cons_of_neg (by simp [hfeed])]
    · rw [returned_cons hc, List.takeWhile_cons, List.takeWhile_cons, ih]

/-- A test of the next character that neither character of a line end passes. -/
theorem any_head_returned {p : Char → Bool} (hfeed : p '\n' = false) (hreturn : p '\r' = false)
    (cs : List Char) : (returned cs).head?.any p = cs.head?.any p := by
  cases cs with
  | nil => rfl
  | cons c cs =>
    by_cases hc : c = '\n'
    · subst hc
      exact hreturn.trans hfeed.symm
    · rw [returned_cons hc]
      rfl

/-! ## Numbers -/

theorem takeDigits_returned (accept : Char → Bool) (hfeed : accept '\n' = false)
    (hreturn : accept '\r' = false) (cs : List Char) :
    takeDigits accept (returned cs) = takeDigits accept cs ∧
      OneLine cs (takeDigits accept cs).2 := by
  have hfeed' : (accept '\n' || '\n' == '_') = false := by rw [hfeed]; rfl
  have hreturn' : (accept '\r' || '\r' == '_') = false := by rw [hreturn]; rfl
  constructor
  · rw [takeDigits, takeWhile_returned hfeed' hreturn']
    rfl
  · exact OneLine.takeWhile (p := fun c => accept c || c == '_') hfeed' cs

theorem startsDigit_returned (cs : List Char) : startsDigit (returned cs) = startsDigit cs := by
  have hany (ds : List Char) : startsDigit ds = ds.head?.any Char.isDigit := by cases ds <;> rfl
  rw [hany, hany, any_head_returned rfl rfl]

theorem scanFraction_returned (cs : List Char) :
    scanFraction? (returned cs) = scanFraction? cs ∧
      ∀ ds n, scanFraction? cs = some (ds, n) → OneLine cs n := by
  cases cs with
  | nil => exact ⟨rfl, fun ds n h => by cases h⟩
  | cons c cs =>
    by_cases hpoint : c = '.'
    · subst hpoint
      obtain ⟨hdigits, hline⟩ := takeDigits_returned Char.isDigit rfl rfl cs
      rw [returned_cons (by decide), scanFraction?, scanFraction?, startsDigit_returned, hdigits]
      refine ⟨rfl, fun ds n h => ?_⟩
      split at h
      · obtain ⟨-, rfl⟩ := Prod.mk.inj (Option.some.inj h)
        exact hline.cons (by decide)
      · cases h
    · have hnone {d : Char} (hd : d ≠ '.') (ds : List Char) : scanFraction? (d :: ds) = none := by
        unfold scanFraction?
        split
        · next heq => exact absurd (List.cons.inj heq).1 hd
        · rfl
      rw [hnone hpoint]
      refine ⟨?_, fun ds n h => by cases h⟩
      by_cases hc : c = '\n'
      · subst hc
        exact hnone (by decide) _
      · rw [returned_cons hc, hnone hpoint]

theorem signLength_returned (cs : List Char) :
    signLength (returned cs) = signLength cs ∧ OneLine cs (signLength cs) := by
  cases cs with
  | nil => exact ⟨rfl, .zero []⟩
  | cons c cs =>
    by_cases hc : c = '\n'
    · subst hc
      exact ⟨rfl, .zero _⟩
    · rw [returned_cons hc, signLength, signLength]
      refine ⟨rfl, ?_⟩
      split
      · exact (OneLine.zero cs).cons hc
      · exact .zero _

theorem scanPower_returned (cs : List Char) :
    scanPower? (returned cs) = scanPower? cs ∧
      ∀ power n, scanPower? cs = some (power, n) → OneLine cs n := by
  cases cs with
  | nil => exact ⟨rfl, fun ds n h => by cases h⟩
  | cons c cs =>
    by_cases hc : c = '\n'
    · subst hc
      exact ⟨by simp [scanPower?], fun power n h => by simp [scanPower?] at h⟩
    obtain ⟨hsign, hsigned⟩ := signLength_returned cs
    obtain ⟨hdigits, hline⟩ :=
      takeDigits_returned Char.isDigit rfl rfl (cs.drop (signLength cs))
    have hminus : ((returned cs).head? = some '-') = (cs.head? = some '-') := by
      have hany (ds : List Char) : (ds.head? = some '-') = (ds.head?.any (· == '-') = true) := by
        cases ds <;> simp
      rw [hany, hany, any_head_returned rfl rfl]
    rw [returned_cons hc, scanPower?, scanPower?]
    dsimp only
    rw [hsign, hsigned.drop, startsDigit_returned, hdigits]
    simp only [hminus, true_and]
    intro power n h
    split at h
    · obtain ⟨-, rfl⟩ := Prod.mk.inj (Option.some.inj h)
      rw [Nat.add_assoc]
      exact (hsigned.add hline).cons hc
    · cases h

theorem scanDecimal_returned (cs : List Char) :
    scanDecimal (returned cs) = scanDecimal cs ∧ OneLine cs (scanDecimal cs).length := by
  obtain ⟨hwhole, hline⟩ := takeDigits_returned Char.isDigit rfl rfl cs
  unfold scanDecimal
  dsimp only
  rw [hwhole]
  generalize takeDigits Char.isDigit cs = whole at hline
  obtain ⟨hfraction, hpoint⟩ := scanFraction_returned (cs.drop whole.2)
  rw [hline.drop, hfraction]
  have hline := hline.add (.option hpoint)
  generalize scanFraction? (cs.drop whole.2) = fraction at hline
  obtain ⟨hpower, hmark⟩ := scanPower_returned
    (cs.drop (whole.2 + (fraction.map (·.2)).getD 0))
  rw [hline.drop, hpower]
  have hline := hline.add (.option hmark)
  refine ⟨rfl, ?_⟩
  split
  · exact hline
  · split <;> exact hline

theorem scanBased_returned (base : Nat) (cs : List Char) :
    scanBased base (returned cs) = scanBased base cs ∧ OneLine cs (scanBased base cs).length := by
  have hfeed : (hexValue? '\n').any (· < base) = false := rfl
  have hreturn : (hexValue? '\r').any (· < base) = false := rfl
  obtain ⟨hdigits, hline⟩ :=
    takeDigits_returned (fun c => (hexValue? c).any (· < base)) hfeed hreturn cs
  unfold scanBased
  rw [hdigits]
  refine ⟨rfl, ?_⟩
  dsimp only
  split <;> exact hline

theorem scanNumber_zero (c : Char) (cs : List Char) : scanNumber ('0' :: c :: cs) =
    match baseOfLetter? c with
    | some base => (scanBased base cs).after 2
    | none => scanDecimal ('0' :: c :: cs) := rfl

theorem scanNumber_of_ne {cs : List Char} (h : ∀ c ds, cs ≠ '0' :: c :: ds) :
    scanNumber cs = scanDecimal cs := by
  unfold scanNumber
  split
  · exact absurd rfl (h _ _)
  · rfl

theorem scanNumber_returned (cs : List Char) :
    scanNumber (returned cs) = scanNumber cs ∧ OneLine cs (scanNumber cs).length := by
  have hdecimal := scanDecimal_returned cs
  by_cases hzero : ∃ c ds, cs = '0' :: c :: ds
  · obtain ⟨c, ds, rfl⟩ := hzero
    rw [returned_cons (by decide)] at hdecimal ⊢
    by_cases hc : c = '\n'
    · subst hc
      exact hdecimal
    · rw [returned_cons hc] at hdecimal ⊢
      rw [scanNumber_zero, scanNumber_zero]
      cases baseOfLetter? c with
      | none => exact hdecimal
      | some base =>
        obtain ⟨hbased, hline⟩ := scanBased_returned base ds
        dsimp only
        rw [hbased, Scan.length_after, Nat.add_assoc 1 1]
        exact ⟨rfl, (hline.cons hc).cons (by decide)⟩
  · have hne : ∀ c ds, cs ≠ '0' :: c :: ds := fun c ds heq => hzero ⟨c, ds, heq⟩
    have hne' : ∀ c ds, returned cs ≠ '0' :: c :: ds := by
      intro c ds heq
      obtain ⟨es, rfl, htail⟩ := eq_cons_of_returned heq (by decide)
      cases es with
      | nil => cases htail
      | cons d es => exact hne d es rfl
    rw [scanNumber_of_ne hne, scanNumber_of_ne hne']
    exact hdecimal

/-! ## Strings -/

section Strings

variable {quote : Char} {triple raw : Bool} {cs : List Char}

/-- The two quotes that make three of one. -/
theorem take_two_returned (hfeed : quote ≠ '\n') (hreturn : quote ≠ '\r') (cs : List Char) :
    (returned cs).take 2 = [quote, quote] ↔ cs.take 2 = [quote, quote] := by
  cases cs with
  | nil => rfl
  | cons c cs =>
    by_cases hc : c = '\n'
    · subst hc
      simp [hfeed.symm, hreturn.symm]
    · cases cs with
      | nil => rw [returned_cons hc, returned_nil]
      | cons d ds =>
        by_cases hd : d = '\n'
        · subst hd
          simp [returned_cons hc, hfeed.symm, hreturn.symm]
        · rw [returned_cons hc, returned_cons hd]
          simp

theorem scanStringBody_quote (quote : Char) (triple raw : Bool) (cs : List Char) :
    scanStringBody quote triple raw (quote :: cs) =
      if triple = false then ⟨.ok [], 1⟩
      else if cs.take 2 = [quote, quote] then ⟨.ok [], 3⟩
      else ((scanStringBody quote triple raw cs).map (quote :: ·)).after 1 := by
  rw [scanStringBody.eq_def]
  dsimp only
  rw [if_pos rfl]
  cases triple with
  | false => rfl
  | true =>
    rcases cs with _ | ⟨d, _ | ⟨e, es⟩⟩
    · rfl
    · simp
    · simp

theorem scanStringBody_ordinary {c : Char} (hquote : c ≠ quote) (hfeed : c ≠ '\n')
    (hescape : ¬(c = '\\' ∧ !raw)) :
    scanStringBody quote triple raw (c :: cs) =
      ((scanStringBody quote triple raw cs).map (c :: ·)).after 1 := by
  rw [scanStringBody.eq_def]
  dsimp only
  rw [if_neg hquote, if_neg (fun h => hfeed h.1), if_neg hescape]

theorem scanStringBody_kept (hquote : IsQuote quote) {e : Char} (hfeed : e ≠ '\n') (hx : e ≠ 'x')
    (hnone : simpleEscape? e = none) :
    scanStringBody quote triple false ('\\' :: e :: cs) =
      ((scanStringBody quote triple false cs).map fun text => '\\' :: e :: text).after 2 := by
  rw [scanStringBody.eq_def]
  simp [hquote.ne_slash, hx, hnone]

/-- A string that has no line feed is read in the same way whatever the lines end with. -/
theorem scanStringBody_returned (hquote : IsQuote quote) {text : List Char}
    (h : (scanStringBody quote triple raw cs).result = .ok text)
    (hline : OneLine cs (scanStringBody quote triple raw cs).length) :
    scanStringBody quote triple raw (returned cs) = scanStringBody quote triple raw cs := by
  have hfeed : quote ≠ '\n' := by rcases hquote with rfl | rfl <;> decide
  have hreturn : quote ≠ '\r' := by rcases hquote with rfl | rfl <;> decide
  fun_induction scanStringBody quote triple raw cs generalizing text with
  | case1 | case6 | case7 | case10 | case11 => cases h
  | case2 cs htriple =>
    rw [returned_cons hfeed, scanStringBody_quote, if_pos (by simpa using htriple)]
  | case3 htriple d e rest hquotes =>
    obtain ⟨rfl, rfl⟩ := hquotes
    rw [returned_cons hfeed, scanStringBody_quote, if_neg (by simpa using htriple),
      if_pos ((take_two_returned hfeed hreturn _).mpr rfl)]
  | case4 htriple d e rest hquotes ih =>
    obtain ⟨inner, hinner, -⟩ := Scan.exists_of_map h
    rw [returned_cons hfeed, scanStringBody_quote, if_neg (by simpa using htriple),
      if_neg (mt (take_two_returned hfeed hreturn _).mp (by simpa using hquotes)),
      ih hinner (OneLine.cons_iff.mp hline).2]
  | case5 htriple cs hshort ih =>
    obtain ⟨inner, hinner, -⟩ := Scan.exists_of_map h
    have hquotes : cs.take 2 ≠ [quote, quote] := by
      rcases cs with _ | ⟨d, _ | ⟨e, rest⟩⟩
      · simp
      · simp
      · exact (hshort d e rest rfl).elim
    rw [returned_cons hfeed, scanStringBody_quote, if_neg (by simpa using htriple),
      if_neg (mt (take_two_returned hfeed hreturn _).mp hquotes),
      ih hinner (OneLine.cons_iff.mp hline).2]
  | case8 c hc hend hescape rest ih =>
    -- The backslash in front of a line feed.
    rw [Scan.length_after, Nat.add_assoc 1 1] at hline
    exact absurd rfl (OneLine.cons_iff.mp (OneLine.cons_iff.mp hline).2).1
  | case9 c hc hend hescape d e rest x hx ih =>
    obtain ⟨rfl, hraw⟩ := hescape
    obtain rfl : raw = false := by simpa using hraw
    obtain ⟨inner, hinner, -⟩ := Scan.exists_of_map h
    rw [Scan.length_after, Scan.length_map, show 4 = 1 + (1 + (1 + 1)) from rfl, Nat.add_assoc,
      Nat.add_assoc, Nat.add_assoc] at hline
    obtain ⟨hd, hline⟩ := OneLine.cons_iff.mp (OneLine.cons_iff.mp (OneLine.cons_iff.mp hline).2).2
    obtain ⟨he, hline⟩ := OneLine.cons_iff.mp hline
    rw [returned_cons (by decide), returned_cons (by decide), returned_cons hd, returned_cons he,
      scanStringBody_hex hquote hx, ih hinner hline]
  | case12 c hc hend hescape e rest hfirst hhex hsecond x hx ih =>
    obtain ⟨rfl, hraw⟩ := hescape
    obtain rfl : raw = false := by simpa using hraw
    obtain ⟨inner, hinner, -⟩ := Scan.exists_of_map h
    rw [Scan.length_after, Scan.length_map, Nat.add_assoc 1 1] at hline
    obtain ⟨he, hline⟩ := OneLine.cons_iff.mp (OneLine.cons_iff.mp hline).2
    rw [returned_cons (by decide), returned_cons he, scanStringBody_simple hquote hx,
      ih hinner hline]
  | case13 c hc hend hescape e rest hfirst hhex hsecond hnone ih =>
    obtain ⟨rfl, hraw⟩ := hescape
    obtain rfl : raw = false := by simpa using hraw
    obtain ⟨inner, hinner, -⟩ := Scan.exists_of_map h
    rw [Scan.length_after, Scan.length_map, Nat.add_assoc 1 1] at hline
    obtain ⟨he, hline⟩ := OneLine.cons_iff.mp (OneLine.cons_iff.mp hline).2
    rw [returned_cons (by decide), returned_cons he, scanStringBody_kept hquote he hsecond hnone,
      ih hinner hline]
  | case14 c cs hc hend hescape ih =>
    obtain ⟨inner, hinner, -⟩ := Scan.exists_of_map h
    obtain ⟨hfirst, hline⟩ := OneLine.cons_iff.mp hline
    rw [returned_cons hfirst, scanStringBody_ordinary hc hfirst hescape, ih hinner hline]

theorem scanString_quote (quote : Char) (raw : Bool) (cs : List Char) :
    scanString raw (quote :: cs) =
      if cs.take 2 = [quote, quote] then (scanStringBody quote true raw (cs.drop 2)).after 3
      else (scanStringBody quote false raw cs).after 1 := by
  match cs with
  | [] => rfl
  | [d] => simp [scanString]
  | d :: e :: es => simp [scanString]

theorem scanString_returned (hquote : IsQuote quote) {text : List Char}
    (h : (scanString raw (quote :: cs)).result = .ok text)
    (hline : OneLine (quote :: cs) (scanString raw (quote :: cs)).length) :
    scanString raw (quote :: returned cs) = scanString raw (quote :: cs) := by
  have hfeed : quote ≠ '\n' := by rcases hquote with rfl | rfl <;> decide
  have hreturn : quote ≠ '\r' := by rcases hquote with rfl | rfl <;> decide
  rw [scanString_quote] at h hline
  rw [scanString_quote, scanString_quote]
  by_cases hquotes : cs.take 2 = [quote, quote]
  · rw [if_pos hquotes] at h hline
    rw [if_pos hquotes, if_pos ((take_two_returned hfeed hreturn cs).mpr hquotes)]
    rw [Scan.length_after, show 3 = 1 + 2 from rfl, Nat.add_assoc] at hline
    obtain ⟨htwo, hbody⟩ := OneLine.add_iff.mp (OneLine.cons_iff.mp hline).2
    rw [htwo.drop, scanStringBody_returned hquote h hbody]
  · rw [if_neg hquotes] at h hline
    rw [if_neg hquotes, if_neg (mt (take_two_returned hfeed hreturn cs).mp hquotes),
      scanStringBody_returned hquote h (OneLine.cons_iff.mp hline).2]

end Strings

/-- A symbol is the start of the text that it is read from. -/
theorem scanSymbol_text {cs : List Char} {sign : Symbol} (h : scanSymbol? cs = some sign) :
    ∃ rest, cs = sign.text.toList ++ rest := by
  unfold scanSymbol? at h
  split at h <;> cases h <;> exact ⟨_, rfl⟩

/-- Only four characters make a symbol longer. -/
theorem scanSymbol_look {c d d' : Char} {ds ds' : List Char} {sign : Symbol}
    (h : ∀ e ∈ ['=', '>', '*', '/'], d = e ↔ d' = e)
    (hscan : scanSymbol? (c :: d :: ds) = some sign) :
    scanSymbol? (c :: d' :: ds') = some sign := by
  have hequals := h '=' (by decide)
  have hgreater := h '>' (by decide)
  have hstar := h '*' (by decide)
  have hslash := h '/' (by decide)
  clear h
  unfold scanSymbol? at hscan
  split at hscan <;> cases hscan
  all_goals
    next heq =>
      cases heq
      first
      | rfl
      | simp_all [scanSymbol?]

theorem scanSymbol_returned (cs : List Char) :
    scanSymbol? (returned cs) = scanSymbol? cs ∧
      ∀ sign, scanSymbol? cs = some sign → OneLine cs sign.text.length := by
  constructor
  · match cs with
    | [] => rfl
    | [c] =>
      by_cases hc : c = '\n'
      · subst hc
        rfl
      · rw [returned_cons hc, returned_nil]
    | c :: d :: ds =>
      by_cases hc : c = '\n'
      · subst hc
        rfl
      rw [returned_cons hc]
      obtain ⟨d', ds', htail, hsame⟩ : ∃ d' ds', returned (d :: ds) = d' :: ds' ∧
          ∀ e ∈ ['=', '>', '*', '/'], d' = e ↔ d = e := by
        by_cases hd : d = '\n'
        · subst hd
          exact ⟨'\r', _, returned_feed ds, by simp⟩
        · exact ⟨d, _, returned_cons hd ds, fun e _ => Iff.rfl⟩
      rw [htail]
      refine Option.ext fun sign => ⟨scanSymbol_look hsame, scanSymbol_look fun e he => ?_⟩
      exact (hsame e he).symm
  · intro sign h
    obtain ⟨rest, rfl⟩ := scanSymbol_text h
    rw [OneLine, ← String.length_toList, List.take_left]
    cases sign <;> decide

/-! ## Lexemes -/

def Lexeme.isText : Lexeme → Bool
  | .string _ | .formatted _ => true
  | _ => false

theorem isText_of_map {s : Scan (List Char)} {isFormatted : Bool} {k : Lexeme}
    (h : (s.map (stringLexeme isFormatted)).result = .ok k) :
    k.isText = true ∧ ∃ text, s.result = .ok text := by
  obtain ⟨text, htext, rfl⟩ := Scan.exists_of_map h
  exact ⟨by cases isFormatted <;> rfl, text, htext⟩

theorem startsString_returned (cs : List Char) :
    startsString (returned cs) = startsString cs := by
  have hany (ds : List Char) : startsString ds = ds.head?.any fun c => c == '"' || c == '\'' := by
    cases ds <;> rfl
  rw [hany, hany, any_head_returned rfl rfl]

theorem isQuote_of_startsString {cs : List Char} (h : startsString cs = true) :
    ∃ quote ds, cs = quote :: ds ∧ IsQuote quote := by
  cases cs with
  | nil => cases h
  | cons c cs => exact ⟨c, cs, rfl, by simpa [startsString, IsQuote] using h⟩

theorem scanWord_returned {cs : List Char} {k : Lexeme} (h : (scanWord cs).result = .ok k)
    (hline : k.isText = true → OneLine cs (scanWord cs).length) :
    scanWord (returned cs) = scanWord cs ∧ OneLine cs (scanWord cs).length := by
  have hword : OneLine cs (cs.takeWhile isNamePart).length := .takeWhile rfl cs
  unfold scanWord at h hline ⊢
  dsimp only at h hline ⊢
  rw [takeWhile_returned rfl rfl, hword.drop, startsString_returned]
  split at h
  · next isFormatted raw heq =>
    rw [heq] at hline
    dsimp only at hline
    have hstarts : startsString (cs.drop (cs.takeWhile isNamePart).length) = true := by
      by_contra hnone
      rw [if_neg hnone] at heq
      cases heq
    obtain ⟨quote, ds, hrest, hquote⟩ := isQuote_of_startsString hstarts
    obtain ⟨htext, text, hscan⟩ := isText_of_map h
    have hlines := hline htext
    have hbody := (OneLine.add_iff.mp hlines).2
    rw [hrest] at hscan hbody
    have hfeed : quote ≠ '\n' := by rcases hquote with rfl | rfl <;> decide
    rw [hrest, returned_cons hfeed, scanString_returned hquote hscan hbody]
    exact ⟨rfl, hrest ▸ hlines⟩
  · exact ⟨rfl, hword⟩

/-- A lexeme is read in the same way whatever the lines end with, if it is no string that goes over
a line end. -/
theorem scanLexeme_returned {c : Char} {cs : List Char} {k : Lexeme}
    (h : (scanLexeme (c :: cs)).result = .ok k)
    (hline : k.isText = true → OneLine (c :: cs) (scanLexeme (c :: cs)).length) :
    scanLexeme (c :: returned cs) = scanLexeme (c :: cs) ∧
      (c ≠ '\n' → OneLine (c :: cs) (scanLexeme (c :: cs)).length) := by
  by_cases hc : c = '\n'
  · subst hc
    exact ⟨rfl, fun hne => absurd rfl hne⟩
  have hcons : returned (c :: cs) = c :: returned cs := returned_cons hc cs
  rw [scanLexeme, if_neg hc] at h hline ⊢
  rw [scanLexeme, if_neg hc]
  split at h
  · next hname =>
    rw [if_pos hname] at hline
    rw [if_pos hname, if_pos hname, ← hcons]
    exact (scanWord_returned h hline).imp_right fun hall _ => hall
  next hname =>
  rw [if_neg hname] at hline
  rw [if_neg hname, if_neg hname]
  split at h
  · next hdigit =>
    rw [if_pos hdigit, if_pos hdigit, ← hcons]
    exact (scanNumber_returned (c :: cs)).imp_right fun hall _ => hall
  next hdigit =>
  rw [if_neg hdigit] at hline
  rw [if_neg hdigit, if_neg hdigit]
  split at h
  · next hquote =>
    rw [if_pos hquote] at hline
    obtain ⟨htext, text, hscan⟩ := isText_of_map h
    rw [if_pos hquote, if_pos hquote, scanString_returned hquote hscan (hline htext)]
    exact ⟨rfl, fun _ => hline htext⟩
  next hquote =>
  obtain ⟨hsame, hall⟩ := scanSymbol_returned (c :: cs)
  rw [if_neg hquote, if_neg hquote, ← hcons, hsame]
  split at h
  · next sign hsign => exact ⟨rfl, fun _ => hall sign hsign⟩
  · cases h

/-! ## Blank space -/

/-- What a reader finds behind blank space: carriage returns in front of a line feed are read with
the blank space. -/
def returnedTail : List Char → List Char
  | [] => []
  | c :: cs => c :: returned cs

def JoinsNoLines (cs : List Char) : Prop :=
  ¬ ['\\', '\n'] <:+: cs

theorem JoinsNoLines.drop {cs : List Char} (h : JoinsNoLines cs) (n : Nat) :
    JoinsNoLines (cs.drop n) :=
  fun hjoin => h (hjoin.trans (List.drop_suffix n cs).isInfix)

theorem JoinsNoLines.tail {c : Char} {cs : List Char} (h : JoinsNoLines (c :: cs)) :
    JoinsNoLines cs :=
  h.drop 1

section Blank

variable {inBrackets inComment : Bool} {c : Char} {cs : List Char}

theorem blankLength_return (inBrackets inComment : Bool) (cs : List Char) :
    blankLength inBrackets inComment ('\r' :: cs) = blankLength inBrackets inComment cs + 1 := by
  rw [blankLength.eq_def]
  cases inComment <;> simp

theorem blankLength_feed (inBrackets inComment : Bool) (cs : List Char) :
    blankLength inBrackets inComment ('\n' :: cs) =
      if inBrackets then blankLength inBrackets false cs + 1 else 0 := by
  rw [blankLength.eq_def]
  simp

theorem blankLength_comment (hc : c ≠ '\n') :
    blankLength inBrackets true (c :: cs) = blankLength inBrackets true cs + 1 := by
  rw [blankLength.eq_def]
  simp [hc]

theorem blankLength_blank (hc : c = ' ' ∨ c = '\t' ∨ c = '\r') :
    blankLength inBrackets false (c :: cs) = blankLength inBrackets false cs + 1 := by
  rw [blankLength.eq_def]
  rcases hc with rfl | rfl | rfl <;> simp

theorem blankLength_mark :
    blankLength inBrackets false ('#' :: cs) = blankLength inBrackets true cs + 1 := by
  rw [blankLength.eq_def]
  simp

theorem blankLength_solid (hfeed : c ≠ '\n') (hblank : ¬(c = ' ' ∨ c = '\t' ∨ c = '\r'))
    (hmark : c ≠ '#') (hjoin : cs.head? ≠ some '\n') :
    blankLength inBrackets false (c :: cs) = 0 := by
  rw [blankLength.eq_def]
  dsimp only
  rw [if_neg hfeed, if_neg Bool.false_ne_true, if_neg hblank, if_neg hmark]
  split
  · exact absurd rfl hjoin
  · rfl

end Blank

theorem head_returned_ne (cs : List Char) : (returned cs).head? ≠ some '\n' := by
  cases cs with
  | nil => exact fun h => by cases h
  | cons c cs =>
    by_cases hc : c = '\n'
    · subst hc
      exact fun h => absurd (Option.some.inj h) (by decide)
    · rw [returned_cons hc]
      exact fun h => hc (Option.some.inj h)

/-- The same blank space stands between two tokens, up to the carriage returns. -/
theorem drop_blankLength_returned (inBrackets inComment : Bool) {cs : List Char}
    (h : JoinsNoLines cs) :
    (returned cs).drop (blankLength inBrackets inComment (returned cs)) =
      returnedTail (cs.drop (blankLength inBrackets inComment cs)) := by
  fun_induction blankLength inBrackets inComment cs with
  | case1 => rfl
  | case2 inComment cs hinside ih =>
    subst hinside
    rw [returned_feed, blankLength_return, blankLength_feed, if_pos rfl]
    exact ih h.tail
  | case3 inComment cs houtside =>
    rw [returned_feed, blankLength_return, blankLength_feed, if_neg houtside]
    rfl
  | case4 c cs hc ih =>
    rw [returned_cons hc, blankLength_comment hc]
    exact ih h.tail
  | case5 inComment c cs hc hline hblank ih =>
    obtain rfl : inComment = false := by simpa using hline
    rw [returned_cons hc, blankLength_blank hblank]
    exact ih h.tail
  | case6 inComment cs hline hc hblank ih =>
    obtain rfl : inComment = false := by simpa using hline
    rw [returned_cons hc, blankLength_mark]
    exact ih h.tail
  | case7 inComment hline rest hc hblank hmark ih =>
    exact absurd (List.prefix_append ['\\', '\n'] rest).isInfix h
  | case8 inComment c hc hline hblank hmark rest hjoin =>
    obtain rfl : inComment = false := by simpa using hline
    rw [returned_cons hc, blankLength_solid hc hblank hmark (head_returned_ne _)]
    rfl
  | case9 inComment c cs hc hline hblank hmark hjoin =>
    obtain rfl : inComment = false := by simpa using hline
    rw [returned_cons hc, blankLength_solid hc hblank hmark (head_returned_ne _)]
    rfl

/-! ## Lines -/

theorem takeWhile_isIndentation_returned (cs : List Char) :
    (returned cs).takeWhile isIndentation =
      cs.takeWhile isIndentation ++
        if (cs.dropWhile isIndentation).head? = some '\n' then ['\r'] else [] := by
  induction cs with
  | nil => rfl
  | cons c cs ih =>
    by_cases hc : c = '\n'
    · subst hc
      rfl
    · rw [returned_cons hc]
      by_cases hblank : isIndentation c = true
      · rw [List.takeWhile_cons_of_pos hblank, List.takeWhile_cons_of_pos hblank,
          List.dropWhile_cons_of_pos hblank, ih, List.cons_append]
      · rw [List.takeWhile_cons_of_neg hblank, List.takeWhile_cons_of_neg hblank,
          List.dropWhile_cons_of_neg hblank, List.head?_cons,
          if_neg (fun h => hc (Option.some.inj h)), List.append_nil]

theorem dropWhile_isIndentation_returned (cs : List Char)
    (h : (cs.dropWhile isIndentation).head? ≠ some '\n') :
    (returned cs).takeWhile isIndentation = cs.takeWhile isIndentation ∧
      (returned cs).dropWhile isIndentation = returned (cs.dropWhile isIndentation) := by
  have hsame := takeWhile_isIndentation_returned cs
  rw [if_neg h, List.append_nil] at hsame
  refine ⟨hsame, ?_⟩
  rw [← drop_takeWhile, hsame, (OneLine.takeWhile rfl cs).drop, drop_takeWhile]

theorem emptyLinesLength_line {blanks : List Char} (h : ∀ c ∈ blanks, isIndentation c = true)
    (rest : List Char) :
    emptyLinesLength (blanks ++ '\n' :: rest) = blanks.length + (emptyLinesLength rest + 1) := by
  have hblanks : (blanks ++ '\n' :: rest).takeWhile isIndentation = blanks := by
    rw [List.takeWhile_append_of_pos h, List.takeWhile_cons_of_neg (by decide), List.append_nil]
  rw [emptyLinesLength.eq_def, hblanks]
  dsimp only
  split
  · next heq =>
    rw [List.drop_left] at heq
    obtain rfl := (List.cons.inj heq).2
    omega
  · next hnone => exact (hnone rest List.drop_left).elim

theorem emptyLinesLength_solid {cs : List Char}
    (h : (cs.dropWhile isIndentation).head? ≠ some '\n') : emptyLinesLength cs = 0 := by
  rw [emptyLinesLength.eq_def]
  dsimp only
  split
  · next heq =>
    rw [drop_takeWhile] at heq
    exact absurd (congrArg List.head? heq) h
  · rfl

theorem drop_emptyLines_returned (cs : List Char) :
    (returned cs).drop (emptyLinesLength (returned cs)) =
      returned (cs.drop (emptyLinesLength cs)) := by
  fun_induction emptyLinesLength cs with
  | case1 cs blanks rest heq ih =>
    have hblank : ∀ c ∈ cs.takeWhile isIndentation ++ ['\r'], isIndentation c = true :=
      List.forall_mem_append.mpr
        ⟨fun c hc => List.mem_takeWhile_imp hc, List.forall_mem_singleton.mpr rfl⟩
    have hreturned : returned cs =
        (cs.takeWhile isIndentation ++ ['\r']) ++ '\n' :: returned rest := by
      have hline : '\n' ∉ cs.takeWhile isIndentation := fun hmem =>
        absurd (List.mem_takeWhile_imp hmem) (by decide)
      conv_lhs => rw [eq_emptyLine heq, returned_append, returned_of_notMem hline, returned_feed]
      rw [List.append_assoc]
      rfl
    rw [hreturned, emptyLinesLength_line hblank, List.drop_length_add_append,
      List.drop_succ_cons, ih]
    conv_rhs => rw [eq_emptyLine heq]
    rw [Nat.add_right_comm, Nat.add_comm, List.drop_length_add_append, List.drop_succ_cons]
  | case2 cs blanks hfeed =>
    have hsolid : (cs.dropWhile isIndentation).head? ≠ some '\n' := by
      intro hhead
      cases hrest : cs.dropWhile isIndentation with
      | nil =>
        rw [hrest] at hhead
        cases hhead
      | cons c ds =>
        rw [hrest] at hhead
        obtain rfl := Option.some.inj hhead
        exact hfeed ds ((drop_takeWhile _ cs).trans hrest)
    rw [emptyLinesLength_solid]
    · rfl
    · rw [(dropWhile_isIndentation_returned cs hsolid).2]
      exact head_returned_ne _

/-- A line keeps its characters and may get a carriage return at its end. -/
theorem line_returned (cs : List Char) :
    ((returned cs).takeWhile (· != '\n') = cs.takeWhile (· != '\n') ∨
        (returned cs).takeWhile (· != '\n') = cs.takeWhile (· != '\n') ++ ['\r']) ∧
      (returned cs).dropWhile (· != '\n') = returnedTail (cs.dropWhile (· != '\n')) := by
  induction cs with
  | nil => exact ⟨.inl rfl, rfl⟩
  | cons c cs ih =>
    by_cases hc : c = '\n'
    · subst hc
      exact ⟨.inr rfl, rfl⟩
    · have hinside : (c != '\n') = true := bne_iff_ne.mpr hc
      rw [returned_cons hc, List.takeWhile_cons_of_pos (p := (· != '\n')) hinside,
        List.takeWhile_cons_of_pos (p := (· != '\n')) hinside,
        List.dropWhile_cons_of_pos (p := (· != '\n')) hinside,
        List.dropWhile_cons_of_pos (p := (· != '\n')) hinside]
      refine ⟨ih.1.imp (congrArg (c :: ·)) fun h => ?_, ih.2⟩
      rw [h, List.cons_append]

/-- The carriage return at the end of a comment is blank space. -/
theorem trimEnd_line_returned (cs : List Char) :
    trimEnd (String.ofList ((returned cs).takeWhile (· != '\n'))) =
      trimEnd (String.ofList (cs.takeWhile (· != '\n'))) := by
  obtain hsame | hmore := (line_returned cs).1
  · rw [hsame]
  · rw [hmore, trimEnd, trimEnd, trimEndWhile, trimEndWhile, String.toList_ofList,
      String.toList_ofList, List.reverse_append, List.reverse_singleton, List.singleton_append,
      List.dropWhile_cons_of_pos (by decide)]

/-! ## Both texts are read alike -/

namespace Lexer

variable {text : List Char} {l l' : Lexer}

/-- Reading stands at the same place of a text and of the text with carriage returns. -/
structure Returns (l l' : Lexer) : Prop where
  rest : l'.rest = returned l.rest
  indents : l'.indents = l.indents
  depth : l'.depth = l.depth
  line : l'.atLineStart = l.atLineStart

/-- Both steps bring the same kinds of tokens; after a fault nothing is said. -/
def Step.Returns : Step → Step → Prop
  | .more ts next, .more ts' next' =>
    ts'.map Token.kind = ts.map Token.kind ∧ Lexer.Returns next next'
  | .done ts, .done ts' => ts'.map Token.kind = ts.map Token.kind
  | .fault _ _ _, _ => True
  | _, _ => False

theorem Step.Returns.done {ts : List Token} {s : Step} (h : Step.Returns (.done ts) s) :
    ∃ ts', s = .done ts' ∧ ts'.map Token.kind = ts.map Token.kind := by
  cases s with
  | done ts' => exact ⟨ts', rfl, h⟩
  | more | fault => exact h.elim

theorem Step.Returns.more {ts : List Token} {next : Lexer} {s : Step}
    (h : Step.Returns (.more ts next) s) : ∃ ts' next', s = .more ts' next' ∧
      ts'.map Token.kind = ts.map Token.kind ∧ Lexer.Returns next next' := by
  cases s with
  | more ts' next' => exact ⟨ts', next', rfl, h⟩
  | done | fault => exact h.elim

/-- No string among the tokens goes over a line end. -/
def TextsInLine (text : List Char) (ts : List Token) : Prop :=
  ∀ t ∈ ts, t.kind.isText = true → '\n' ∉ stretch text t.span.start t.span.stop

/-- The condition on strings for the tokens that a step brings. -/
def Step.TextsInLine (text : List Char) : Step → Prop
  | .more ts _ | .done ts | .fault ts _ _ => Lexer.TextsInLine text ts

theorem map_kind_closing {l l' : Lexer} (h : l'.indents = l.indents) (lineOpen : Bool) :
    (l'.closing lineOpen).map Token.kind = (l.closing lineOpen).map Token.kind := by
  unfold closing
  rw [h, List.map_map, List.map_map]
  rfl

theorem Located.oneLine (h : l.Located text) (n : Nat)
    (hline : '\n' ∉ stretch text l.position.offset (l.advance n).position.offset) :
    OneLine l.rest n := by
  rw [Located.offset_advance, stretch, Nat.add_sub_cancel_left, ← h.rest] at hline
  rwa [OneLine, ← List.take_take, List.take_length] at *

theorem token_returns {marks marks' : List Token} {lineOpen : Bool} (hlocated : l.Located text)
    (hjoins : JoinsNoLines text) (h : l.Returns l')
    (hmarks : marks'.map Token.kind = marks.map Token.kind)
    (htexts : (l.token marks lineOpen).TextsInLine text) :
    (l.token marks lineOpen).Returns (l'.token marks' lineOpen) := by
  have hstart : l.tokenStart.Located text := hlocated.advance _
  have hrest : l'.tokenStart.rest = returnedTail l.tokenStart.rest := by
    rw [tokenStart, tokenStart, rest_advance, rest_advance, h.depth, h.rest]
    exact drop_blankLength_returned _ _ (hlocated.rest ▸ hjoins.drop _)
  rw [token_eq] at htexts
  rw [token_eq, token_eq, hrest]
  cases hcs : l.tokenStart.rest with
  | nil =>
    show (marks' ++ _).map _ = (marks ++ _).map _
    rw [List.map_append, List.map_append, hmarks, map_kind_closing]
    exact h.indents
  | cons c cs =>
    rw [hcs] at htexts
    dsimp only [returnedTail] at htexts ⊢
    cases hscan : (scanLexeme (c :: cs)).result with
    | error defect => trivial
    | ok kind =>
      rw [hscan] at htexts
      have hline : kind.isText = true → OneLine (c :: cs) (scanLexeme (c :: cs)).length := by
        intro htext
        have htoken := htexts _ (List.mem_append_right _ List.mem_cons_self) htext
        have hone := hstart.oneLine _ htoken
        rwa [hcs] at hone
      obtain ⟨hsame, hlines⟩ := scanLexeme_returned hscan hline
      rw [hsame, hscan]
      refine ⟨by rw [List.map_append, List.map_append, hmarks]; rfl, ?_, h.indents, ?_, rfl⟩
      · show l'.tokenStart.rest.drop _ = returned (l.tokenStart.rest.drop _)
        rw [hrest, hcs, returnedTail]
        by_cases hc : c = '\n'
        · subst hc
          rfl
        · rw [← returned_cons hc, (hlines hc).drop]
      · exact congrArg (depthAfter · kind) h.depth

theorem lineStart_returns (h : l.Returns l') :
    l'.indentation = l.indentation ∧ l'.lineStart.rest = returned l.lineStart.rest := by
  have hline : l'.rest.drop (emptyLinesLength l'.rest) =
      returned (l.rest.drop (emptyLinesLength l.rest)) := by
    rw [h.rest]
    exact drop_emptyLines_returned l.rest
  have hsolid : ((l.rest.drop (emptyLinesLength l.rest)).dropWhile isIndentation).head? ≠
      some '\n' := by
    intro hhead
    rw [← rest_lineStart] at hhead
    obtain ⟨cs, hrest⟩ := List.head?_eq_some_iff.mp hhead
    exact (lineStart_solid hrest).2 rfl
  obtain ⟨hindent, hrest⟩ := dropWhile_isIndentation_returned _ hsolid
  constructor
  · rw [indentation, rest_advance, hline, hindent]
    rfl
  · rw [rest_lineStart, rest_lineStart, hline, hrest]

theorem comment_returns {cs : List Char} (h : l.Returns l') (hrest : l.rest = '#' :: cs) :
    l.comment.Returns l'.comment := by
  have htext := trimEnd_line_returned cs
  have hline := (line_returned cs).2
  have hrest' : l'.rest = '#' :: returned cs := by rw [h.rest, hrest, returned_cons (by decide)]
  have hmark : ('#' != '\n') = true := rfl
  refine ⟨?_, ?_, h.indents, h.depth, h.line⟩
  · show [Lexeme.comment (trimEnd (String.ofList ((l'.rest.takeWhile (· != '\n')).drop 1)))] =
      [.comment (trimEnd (String.ofList ((l.rest.takeWhile (· != '\n')).drop 1)))]
    rw [hrest, hrest', List.takeWhile_cons_of_pos (p := (· != '\n')) hmark,
      List.takeWhile_cons_of_pos (p := (· != '\n')) hmark, List.drop_one, List.drop_one,
      List.tail_cons, List.tail_cons, htext]
  · show (l'.rest.drop (l'.rest.takeWhile (· != '\n')).length).drop 1 =
      returned ((l.rest.drop (l.rest.takeWhile (· != '\n')).length).drop 1)
    rw [drop_takeWhile, drop_takeWhile, hrest, hrest',
      List.dropWhile_cons_of_pos (p := (· != '\n')) hmark,
      List.dropWhile_cons_of_pos (p := (· != '\n')) hmark, hline]
    cases cs.dropWhile (· != '\n') <;> rfl

theorem step_returns {before : List Token} (hreads : l.Reads text before)
    (hjoins : JoinsNoLines text) (h : l.Returns l') (htexts : l.step.TextsInLine text) :
    l.step.Returns l'.step := by
  cases hline : l.atLineStart with
  | false =>
    rw [step_inside hline] at htexts ⊢
    rw [step_inside (h.line.trans hline)]
    exact token_returns hreads.located hjoins h rfl htexts
  | true =>
    obtain ⟨hindent, hrest⟩ := lineStart_returns h
    have hstart : l.lineStart.Located text := (hreads.located.advance _).advance _
    have hlineStart : l.lineStart.Returns l'.lineStart := ⟨hrest, h.indents, h.depth, h.line⟩
    rw [step_lineStart hline] at htexts ⊢
    rw [step_lineStart (h.line.trans hline), hrest]
    cases hcs : l.lineStart.rest with
    | nil =>
      have hindents : l'.lineStart.indents = l.lineStart.indents := h.indents
      exact map_kind_closing hindents false
    | cons c cs =>
      rw [hcs] at htexts
      rw [returned_cons (lineStart_solid hcs).2]
      dsimp only at htexts ⊢
      by_cases hmark : c = '#'
      · rw [if_pos hmark, if_pos hmark]
        exact comment_returns hlineStart (hcs.trans (by rw [hmark]))
      · rw [if_neg hmark] at htexts
        rw [if_neg hmark, if_neg hmark, hindent]
        have hlayout : l'.lineStart.layout (indentWidth l.indentation) =
            l.lineStart.layout (indentWidth l.indentation) := by
          rw [layout, layout, width, width, hlineStart.indents]
        rw [hlayout]
        cases hread : l.lineStart.layout (indentWidth l.indentation) with
        | error defect => trivial
        | ok read =>
          obtain ⟨marks, indents⟩ := read
          rw [hread] at htexts
          refine token_returns (l := { l.lineStart with indents := indents })
            ⟨hstart.rest, hstart.fits, hstart.position⟩ hjoins
            ⟨hrest, rfl, h.depth, h.line⟩ ?_ htexts
          rw [List.map_map, List.map_map]
          rfl

/-- The two runs stay in step to the end. -/
theorem run_returns (l l' : Lexer) {before : List Token} (hreads : l.Reads text before)
    (hjoins : JoinsNoLines text) (h : l.Returns l') (htexts : TextsInLine text l.run.1)
    (hnone : l.run.2 = none) :
    l'.run.2 = none ∧ l'.run.1.map Token.kind = l.run.1.map Token.kind := by
  refine run_induction (P := fun l ts => ∀ l' before, l.Reads text before → l.Returns l' →
    TextsInLine text ts → l'.run.2 = none ∧ l'.run.1.map Token.kind = ts.map Token.kind)
    ?done ?more l hnone l' before hreads h htexts
  case done =>
    intro l tokens hl l' before hreads h htexts
    have hstep := step_returns hreads hjoins h (hl ▸ htexts)
    rw [hl] at hstep
    obtain ⟨tokens', hl', hkinds⟩ := hstep.done
    rw [run_done hl']
    exact ⟨rfl, hkinds⟩
  case more =>
    intro l tokens next later hl ih l' before hreads h htexts
    obtain ⟨hfirst, hothers⟩ := List.forall_mem_append.mp htexts
    have hnext := step_reads hreads
    have hstep := step_returns hreads hjoins h (hl ▸ hfirst)
    rw [hl] at hnext hstep
    obtain ⟨tokens', next', hl', hkinds, hreturns⟩ := hstep.more
    obtain ⟨hnone', hlater⟩ := ih next' _ hnext hreturns hothers
    rw [run_more hl', List.map_append, List.map_append, hkinds, hlater]
    exact ⟨hnone', rfl⟩

end Lexer

/-- Whatever its lines end with, a text that is read to the end has the same kinds of tokens, if no
string goes over a line end and no line ends with a backslash. -/
theorem tokens_returned {source : String} {ts : List Token} (h : tokens source = .ok ts)
    (htexts : Lexer.TextsInLine source.toList ts) (hjoins : JoinsNoLines source.toList) :
    ∃ ts', tokens (String.ofList (returned source.toList)) = .ok ts' ∧
      ts'.map Token.kind = ts.map Token.kind := by
  unfold tokens at h
  split at h
  · next heq =>
    obtain rfl := Except.ok.inj h
    have hrun : (Lexer.start source).run = (_, none) := heq
    have hstart : (Lexer.start source).Returns
        (Lexer.start (String.ofList (returned source.toList))) :=
      ⟨String.toList_ofList, rfl, rfl, rfl⟩
    obtain ⟨hnone, hkinds⟩ := Lexer.run_returns _ _ (Lexer.start_reads source) hjoins hstart
      (by rw [hrun]; exact htexts) (congrArg Prod.snd hrun)
    rw [hrun] at hkinds
    refine ⟨_, ?_, hkinds⟩
    rw [tokens, readTokens]
    generalize (Lexer.start (String.ofList (returned source.toList))).run = out at hnone
    obtain ⟨ts', fault⟩ := out
    obtain rfl : fault = none := hnone
    rfl
  · cases h

/-- A joined line does not stay one. -/
example : (tokens "x = 1 + \\\n2\n").isOk = true ∧
    (tokens "x = 1 + \\\r\n2\r\n").isOk = false := by decide +kernel

end StagedScript.Syntax
