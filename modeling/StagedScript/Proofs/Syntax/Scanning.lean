import StagedScript.Syntax.Lexer
import StagedScript.Text.Quoted

/-!
# Scanning printed words

The text of a name, a number, a string or a symbol is scanned to the lexeme that
it was printed for, if what follows does not make it longer.
-/

namespace StagedScript.Syntax

open Text

/-- No word, number or string goes on in the text. -/
def isClear : List Char → Bool
  | [] => true
  | c :: cs => !isNamePart c && c != '"' && c != '\'' && !(c == '.' && startsDigit cs)

/-- No symbol goes on in the text. -/
def isSevered : List Char → Bool
  | [] => true
  | c :: _ => c != '=' && c != '>' && c != '*' && c != '/'

theorem scanLexeme_blank (cs : List Char) :
    scanLexeme (' ' :: cs) = ⟨.error (.invalidCharacter ' '), 1⟩ := rfl

theorem startsString_of_isClear {rest : List Char} (h : isClear rest = true) :
    startsString rest = false := by
  cases rest with
  | nil => rfl
  | cons c cs =>
    simp only [isClear, Bool.and_eq_true, bne_iff_ne] at h
    simp [startsString, h.1.1.2, h.1.2]

/-- A run of accepted characters ends where the next one is not accepted. -/
theorem takeWhile_append_of_head {p : Char → Bool} {cs rest : List Char}
    (hcs : ∀ c ∈ cs, p c = true) (hrest : ∀ c ∈ rest.head?, p c = false) :
    (cs ++ rest).takeWhile p = cs := by
  rw [List.takeWhile_append_of_pos hcs]
  cases rest with
  | nil => simp
  | cons c rest => simp [hrest c rfl]

theorem dropWhile_append_of_head {p : Char → Bool} {cs rest : List Char}
    (hcs : ∀ c ∈ cs, p c = true) (hrest : ∀ c ∈ rest.head?, p c = false) :
    (cs ++ rest).dropWhile p = rest := by
  rw [List.dropWhile_append_of_pos hcs]
  cases rest with
  | nil => rfl
  | cons c rest => simp [hrest c rfl]

theorem isNamePart_head_of_isClear {rest : List Char} (h : isClear rest = true) :
    ∀ c ∈ rest.head?, isNamePart c = false := by
  cases rest with
  | nil => simp
  | cons c cs =>
    simp only [isClear, Bool.and_eq_true, Bool.not_eq_true'] at h
    simpa using h.1.1.1

/-- The text can stand in a comment: it has one line and no blank space at its end. -/
def IsCommentText (text : String) : Prop :=
  '\n' ∉ text.toList ∧ trimEnd text = text

/-- The text is a name and no reserved word. -/
def isName (id : String) : Bool :=
  id.toList.head?.any isNameStart && id.toList.all isNamePart && (Keyword.ofText? id).isNone

/-- The characters of a word start like a name and go on like one. -/
theorem scanLexeme_word {word rest : List Char} (hstart : word.head?.any isNameStart = true)
    (hparts : ∀ c ∈ word, isNamePart c = true) (hrest : isClear rest = true) :
    scanLexeme (word ++ rest) = ⟨.ok (wordLexeme word), word.length⟩ := by
  cases word with
  | nil => simp at hstart
  | cons c cs =>
    have hc : isNameStart c = true := by simpa using hstart
    have hn : c ≠ '\n' := by
      rintro rfl
      revert hc
      decide
    have hword := takeWhile_append_of_head hparts (isNamePart_head_of_isClear hrest)
    rw [List.cons_append, scanLexeme, if_neg hn, if_pos hc, ← List.cons_append, scanWord, hword,
      List.drop_left, startsString_of_isClear hrest]
    rfl

theorem ofText?_text (word : Keyword) : Keyword.ofText? word.text = some word := by
  cases word <;> decide

theorem scanLexeme_keyword (word : Keyword) {rest : List Char} (hrest : isClear rest = true) :
    scanLexeme (word.text.toList ++ rest) = ⟨.ok (.keyword word), word.text.length⟩ := by
  have hstart : word.text.toList.head?.any isNameStart = true := by cases word <;> decide
  have hall : word.text.toList.all isNamePart = true := by cases word <;> decide
  have hparts : ∀ c ∈ word.text.toList, isNamePart c = true := List.all_eq_true.mp hall
  rw [scanLexeme_word hstart hparts hrest, wordLexeme, String.ofList_toList, ofText?_text,
    String.length_toList]

theorem scanLexeme_name {id : String} (hid : isName id = true) {rest : List Char}
    (hrest : isClear rest = true) :
    scanLexeme (id.toList ++ rest) = ⟨.ok (.identifier id), id.length⟩ := by
  simp only [isName, Bool.and_eq_true, List.all_eq_true, Option.isNone_iff_eq_none] at hid
  rw [scanLexeme_word hid.1.1 hid.1.2 hrest, wordLexeme, String.ofList_toList, hid.2,
    String.length_toList]

/-! ## Numbers -/

theorem isNamePart_of_isDigit {c : Char} (h : c.isDigit = true) : isNamePart c = true := by
  have hlt : c.toNat < 128 := by
    simp only [Char.isDigit, Bool.and_eq_true, decide_eq_true_eq] at h
    have hle : c.val.toNat ≤ 57 := h.2
    exact Nat.lt_of_le_of_lt hle (by decide)
  simp [isNamePart, isAlphanumeric, isNumeric, hlt, h]

/-- No digit comes next. -/
theorem isDigit_head_of_isNamePart {c : Char} (h : isNamePart c = false) :
    (c.isDigit || c == '_') = false := by
  have hdigit : c.isDigit = false := by
    rw [Bool.eq_false_iff]
    intro hd
    rw [isNamePart_of_isDigit hd] at h
    exact Bool.noConfusion h
  have hline : (c == '_') = false := by
    simp only [isNamePart, Bool.or_eq_false_iff] at h
    exact h.2
  rw [hdigit, hline, Bool.or_self]

theorem takeDigits_append {ds rest : List Char} (hds : ∀ c ∈ ds, c.isDigit = true)
    (hrest : ∀ c ∈ rest.head?, (c.isDigit || c == '_') = false) :
    takeDigits Char.isDigit (ds ++ rest) = (ds, ds.length) := by
  have hrun : (ds ++ rest).takeWhile (fun c => c.isDigit || c == '_') = ds :=
    takeWhile_append_of_head (fun c hc => by simp [hds c hc]) hrest
  have hfilter : ds.filter (· != '_') = ds := by
    rw [List.filter_eq_self]
    intro c hc
    rw [bne_iff_ne]
    rintro rfl
    exact absurd (hds _ hc) (by decide)
  rw [takeDigits, hrun, hfilter]

def fractionText (fraction : List Char) : List Char :=
  if fraction.isEmpty then [] else '.' :: fraction

def powerText : Option Int → List Char
  | some power => 'e' :: (toString power).toList
  | none => []

theorem isDigit_toDigits {n : Nat} : ∀ c ∈ Nat.toDigits 10 n, c.isDigit = true :=
  fun _ hc => Nat.isDigit_of_mem_toDigits (by decide) (by decide) hc

theorem startsDigit_append {ds : List Char} (rest : List Char) (hne : ds ≠ [])
    (hds : ∀ c ∈ ds, c.isDigit = true) : startsDigit (ds ++ rest) = true := by
  cases ds with
  | nil => exact absurd rfl hne
  | cons d ds => exact hds d List.mem_cons_self

/-- Digits have no sign in front. -/
theorem signLength_append {ds : List Char} (rest : List Char) (hds : ∀ c ∈ ds, c.isDigit = true)
    (hne : ds ≠ []) : signLength (ds ++ rest) = 0 ∧ ds.head? ≠ some '-' := by
  cases ds with
  | nil => exact absurd rfl hne
  | cons d ds =>
    have hd := hds d List.mem_cons_self
    have hsign : ¬ (d = '+' ∨ d = '-') := by
      rintro (rfl | rfl) <;> exact absurd hd (by decide)
    constructor
    · exact if_neg hsign
    · intro h
      exact hsign (.inr (Option.some.inj h))

theorem toList_toString_int (power : Int) :
    (toString power).toList =
      (if power < 0 then ['-'] else []) ++ Nat.toDigits 10 power.natAbs := by
  by_cases hneg : power < 0
  · obtain ⟨n, rfl⟩ : ∃ n : Nat, power = -(n : Int) := ⟨power.natAbs, by omega⟩
    rw [Int.toString_eq_repr, Int.repr_eq_if, if_neg (by omega), if_pos hneg, String.toList_append]
    simp
  · rw [Int.toString_eq_repr, Int.repr_eq_if, if_pos (by omega), if_neg hneg]
    have habs : power.toNat = power.natAbs := by omega
    simp [habs]

theorem scanPower?_append {rest : List Char} (hrest : isClear rest = true) (power? : Option Int) :
    scanPower? (powerText power? ++ rest) =
      power?.map fun power => (power, (powerText power?).length) := by
  cases power? with
  | none =>
    cases rest with
    | nil => rfl
    | cons c cs =>
      have hc := isNamePart_head_of_isClear hrest c rfl
      have he : ¬ (c = 'e' ∨ c = 'E') := by
        rintro (rfl | rfl) <;> exact absurd hc (by decide)
      simp [powerText, scanPower?, he]
  | some power =>
    have hds : ∀ c ∈ Nat.toDigits 10 power.natAbs, c.isDigit = true := isDigit_toDigits
    have hdigits := takeDigits_append hds
      (fun c hc => isDigit_head_of_isNamePart (isNamePart_head_of_isClear hrest c hc))
    have hstart := startsDigit_append rest Nat.toDigits_ne_nil hds
    have hvalue : Decimal.digitsValue (Nat.toDigits 10 power.natAbs) = power.natAbs :=
      Nat.ofDigitChars_ten_toDigits
    rw [powerText, toList_toString_int]
    generalize hmagnitude : power.natAbs = magnitude at hds hdigits hstart hvalue ⊢
    by_cases hneg : power < 0
    · have hpower : -(magnitude : Int) = power := by omega
      rw [if_pos hneg]
      simp [scanPower?, signLength, hstart, hdigits, hvalue, hpower, Nat.add_assoc]
      omega
    · have hpower : (magnitude : Int) = power := by omega
      obtain ⟨hsign, hminus⟩ := signLength_append rest hds Nat.toDigits_ne_nil
      rw [if_neg hneg]
      simp [scanPower?, hstart, hdigits, hvalue, hpower, hsign, hminus, Nat.add_comm]

/-- Neither digits nor a fraction go on in the text. -/
def NumberEnds (cs : List Char) : Prop :=
  (∀ c ∈ cs.head?, (c.isDigit || c == '_') = false) ∧ ∀ ds, cs = '.' :: ds → startsDigit ds = false

theorem numberEnds_powerText {rest : List Char} (hrest : isClear rest = true)
    (power? : Option Int) : NumberEnds (powerText power? ++ rest) := by
  cases power? with
  | none =>
    constructor
    · intro c hc
      exact isDigit_head_of_isNamePart (isNamePart_head_of_isClear hrest c hc)
    · rintro ds hds
      have hcs : rest = '.' :: ds := hds
      rw [hcs] at hrest
      simp only [isClear, Bool.and_eq_true, Bool.not_eq_true'] at hrest
      simpa using hrest.2
  | some power =>
    constructor
    · intro c hc
      obtain rfl : c = 'e' := by simpa [powerText] using hc.symm
      decide
    · rintro ds hds
      simp [powerText] at hds

theorem scanFraction?_append {fraction tail : List Char}
    (hfraction : ∀ c ∈ fraction, c.isDigit = true) (htail : NumberEnds tail) :
    scanFraction? (fractionText fraction ++ tail) =
      if fraction = [] then none else some (fraction, (fractionText fraction).length) := by
  by_cases hempty : fraction = []
  · rw [if_pos hempty, hempty]
    cases tail with
    | nil => rfl
    | cons c cs =>
      by_cases hdot : c = '.'
      · subst hdot
        simp [fractionText, scanFraction?, htail.2 cs rfl]
      · simp [fractionText, scanFraction?, hdot]
  · have hstart := startsDigit_append tail hempty hfraction
    have hdigits := takeDigits_append hfraction htail.1
    simp [fractionText, scanFraction?, hempty, hstart, hdigits, Nat.add_comm]

/-- A numeral is scanned with its fraction and its power of ten. -/
theorem scanDecimal_append {whole fraction rest : List Char} (power? : Option Int)
    (hwhole : ∀ c ∈ whole, c.isDigit = true) (hfraction : ∀ c ∈ fraction, c.isDigit = true)
    (hrest : isClear rest = true) :
    let cs := whole ++ (fractionText fraction ++ powerText power?)
    scanDecimal (cs ++ rest) =
      if fraction ≠ [] ∨ power?.isSome then
        ⟨.ok (.float (Decimal.nearest (Decimal.ofParts whole fraction (power?.getD 0)))), cs.length⟩
      else if Decimal.digitsValue whole ≤ maxMagnitude then
        ⟨.ok (.integer (Decimal.digitsValue whole)), cs.length⟩
      else ⟨.error (.integerTooLarge (String.ofList whole)), cs.length⟩ := by
  intro cs
  have hends := numberEnds_powerText hrest power?
  have hhead : ∀ c ∈ (fractionText fraction ++ (powerText power? ++ rest)).head?,
      (c.isDigit || c == '_') = false := by
    by_cases hempty : fraction = []
    · rw [hempty]
      exact hends.1
    · intro c hc
      obtain rfl : c = '.' := by simpa [fractionText, hempty] using hc.symm
      decide
  have hcs : cs ++ rest = whole ++ (fractionText fraction ++ (powerText power? ++ rest)) := by
    simp [cs]
  have hlength : ((if fraction = [] then none
      else some (fraction, (fractionText fraction).length)).map (·.2)).getD 0 =
        (fractionText fraction).length := by
    by_cases hempty : fraction = []
    · simp [fractionText, hempty]
    · simp [hempty]
  have hdrop : (whole ++ (fractionText fraction ++ (powerText power? ++ rest))).drop
      (whole.length + (fractionText fraction).length) = powerText power? ++ rest := by
    rw [← List.append_assoc, ← List.length_append, List.drop_left]
  rw [scanDecimal, hcs, takeDigits_append hwhole hhead]
  dsimp only
  rw [List.drop_left, scanFraction?_append hfraction hends, hlength, hdrop,
    scanPower?_append hrest]
  by_cases hempty : fraction = []
  · cases power? <;> simp [hempty, cs, fractionText, powerText]
  · cases power? <;> simp [hempty, cs, Nat.add_assoc, powerText]

/-- A numeral does not announce a base. -/
theorem scanNumber_append {ds tail : List Char} (hds : ∀ c ∈ ds, c.isDigit = true) (hne : ds ≠ [])
    (htail : ∀ c ∈ tail.head?, isNamePart c = false ∨ c = 'e') :
    scanNumber (ds ++ tail) = scanDecimal (ds ++ tail) := by
  have hbase {c : Char} (h : c.isDigit = true ∨ isNamePart c = false ∨ c = 'e') :
      baseOfLetter? c = none := by
    simp only [baseOfLetter?]
    split
    · next hx => rcases hx with rfl | rfl <;> revert h <;> decide
    split
    · next hx => rcases hx with rfl | rfl <;> revert h <;> decide
    split
    · next hx => rcases hx with rfl | rfl <;> revert h <;> decide
    · rfl
  unfold scanNumber
  split
  · next c cs heq =>
    have hc : c.isDigit = true ∨ isNamePart c = false ∨ c = 'e' := by
      match ds, hne with
      | [_], _ =>
        simp only [List.cons_append, List.nil_append, List.cons.injEq] at heq
        exact .inr (htail c (by rw [heq.2]; rfl))
      | _ :: d :: _, _ =>
        simp only [List.cons_append, List.cons.injEq] at heq
        exact .inl (heq.2.1 ▸ hds d (by simp))
    rw [hbase hc, heq]
  · rfl

theorem isAlpha_of_isDigit {c : Char} (h : c.isDigit = true) : c.isAlpha = false := by
  have hdigit : c.val.toNat ≤ 57 :=
    UInt32.le_iff_toNat_le.mp (of_decide_eq_true (Bool.and_eq_true_iff.mp h).2)
  refine Bool.eq_false_iff.mpr fun halpha => ?_
  rcases Bool.or_eq_true_iff.mp halpha with hupper | hlower
  · have : 65 ≤ c.val.toNat := UInt32.le_iff_toNat_le.mp (of_decide_eq_true hupper).1
    omega
  · have : 97 ≤ c.val.toNat :=
      UInt32.le_iff_toNat_le.mp (of_decide_eq_true (Bool.and_eq_true_iff.mp hlower).1)
    omega

theorem isNameStart_of_isDigit {c : Char} (h : c.isDigit = true) : isNameStart c = false := by
  have hlt : c.toNat < 128 :=
    Nat.lt_of_le_of_lt (UInt32.le_iff_toNat_le.mp (of_decide_eq_true (Bool.and_eq_true_iff.mp h).2))
      (by decide)
  have hline : (c == '_') = false := by
    rw [beq_eq_false_iff_ne]
    rintro rfl
    exact absurd h (by decide)
  simp [isNameStart, isAlphabetic, hlt, isAlpha_of_isDigit h, hline]

theorem scanLexeme_digits {ds tail : List Char} (hds : ∀ c ∈ ds, c.isDigit = true)
    (hne : ds ≠ []) : scanLexeme (ds ++ tail) = scanNumber (ds ++ tail) := by
  cases ds with
  | nil => exact absurd rfl hne
  | cons d ds =>
    have hd := hds d List.mem_cons_self
    have hline : d ≠ '\n' := by
      rintro rfl
      exact absurd hd (by decide)
    rw [List.cons_append, scanLexeme, if_neg hline, isNameStart_of_isDigit hd, hd]
    rfl

/-- The digits of a whole number are scanned to it. -/
theorem scanLexeme_integer {n : Nat} (hn : n ≤ maxMagnitude) {rest : List Char}
    (hrest : isClear rest = true) :
    scanLexeme (Nat.toDigits 10 n ++ rest) =
      ⟨.ok (.integer n), (Nat.toDigits 10 n).length⟩ := by
  have hvalue : Decimal.digitsValue (Nat.toDigits 10 n) = n := Nat.ofDigitChars_ten_toDigits
  have hscan := scanDecimal_append none (isDigit_toDigits (n := n)) (List.forall_mem_nil _) hrest
  rw [scanLexeme_digits isDigit_toDigits Nat.toDigits_ne_nil,
    scanNumber_append isDigit_toDigits Nat.toDigits_ne_nil
      fun c hc => .inl (isNamePart_head_of_isClear hrest c hc)]
  simpa [fractionText, powerText, hvalue, hn] using hscan

/-! ## Strings -/

/-- A quote that strings are printed in. -/
def IsQuote (quote : Char) : Prop :=
  quote = '"' ∨ quote = '\''

theorem hexEscape?_hexDigit {c : Char} (h : isControl c = true) :
    hexEscape? [hexDigit (c.toNat / 16), hexDigit (c.toNat % 16)] = some c := by
  have hall : ∀ n < 128, hexEscape? [hexDigit (n / 16), hexDigit (n % 16)] = some (Char.ofNat n) := by
    decide +kernel
  have hlt : c.toNat < 128 := by
    simp only [isControl, Bool.or_eq_true, decide_eq_true_eq, beq_iff_eq] at h
    omega
  rw [hall _ hlt, Char.ofNat_toNat]

section Body

variable {quote : Char} {triple : Bool}

theorem IsQuote.ne_slash (h : IsQuote quote) : '\\' ≠ quote := by
  rcases h with rfl | rfl <;> decide

theorem scanStringBody_simple (hquote : IsQuote quote) {e x : Char}
    (hx : simpleEscape? e = some x) (tail : List Char) :
    scanStringBody quote triple false ('\\' :: e :: tail) =
      ((scanStringBody quote triple false tail).map (x :: ·)).after 2 := by
  have hline : e ≠ '\n' := by
    rintro rfl
    simp [simpleEscape?] at hx
  have hhex : e ≠ 'x' := by
    rintro rfl
    simp [simpleEscape?] at hx
  rw [scanStringBody.eq_def]
  simp [hquote.ne_slash, hhex, hx]

theorem scanStringBody_hex (hquote : IsQuote quote) {d e x : Char}
    (hx : hexEscape? [d, e] = some x) (tail : List Char) :
    scanStringBody quote triple false ('\\' :: 'x' :: d :: e :: tail) =
      ((scanStringBody quote triple false tail).map (x :: ·)).after 4 := by
  rw [scanStringBody.eq_def]
  simp [hquote.ne_slash, hx]

theorem scanStringBody_plain {c : Char} (hquote : c ≠ quote) (hslash : c ≠ '\\')
    (hline : c = '\n' → triple = true) (tail : List Char) :
    scanStringBody quote triple false (c :: tail) =
      ((scanStringBody quote triple false tail).map (c :: ·)).after 1 := by
  have hend : ¬ (c = '\n' ∧ (!triple) = true) := by
    rintro ⟨hc, htriple⟩
    rw [hline hc] at htriple
    exact absurd htriple (by decide)
  rw [scanStringBody.eq_def]
  simp only [if_neg hquote, if_neg hend]
  simp [hslash]

end Body

section Quoted

variable {quote : Char} {hexControls : Bool}

/-- An escaped character is read as the character. -/
theorem scanStringBody_escapeChar (hquote : IsQuote quote) (c : Char) (tail : List Char) :
    scanStringBody quote false false (escapeChar hexControls quote c ++ tail) =
      ((scanStringBody quote false false tail).map (c :: ·)).after
        (escapeChar hexControls quote c).length := by
  simp only [escapeChar]
  split
  · next h =>
    subst h
    exact scanStringBody_simple hquote rfl tail
  split
  · next h =>
    subst h
    exact scanStringBody_simple hquote rfl tail
  split
  · next h =>
    subst h
    exact scanStringBody_simple hquote rfl tail
  split
  · next h =>
    subst h
    exact scanStringBody_simple hquote rfl tail
  split
  · next h =>
    have hsimple : simpleEscape? c = some c := by
      subst h
      rcases hquote with rfl | rfl <;> decide
    exact scanStringBody_simple hquote hsimple tail
  split
  · next h =>
    have hcontrol : isControl c = true := (Bool.and_eq_true_iff.mp h).2
    exact scanStringBody_hex hquote (hexEscape?_hexDigit hcontrol) tail
  · next hslash hline _ _ hne _ =>
    exact scanStringBody_plain hne hslash (fun h => absurd h hline) tail

theorem scanStringBody_escape (hquote : IsQuote quote) (hexControls : Bool) (cs rest : List Char) :
    scanStringBody quote false false (cs.flatMap (escapeChar hexControls quote) ++ quote :: rest) =
      ⟨.ok cs, (cs.flatMap (escapeChar hexControls quote)).length + 1⟩ := by
  induction cs with
  | nil =>
    rw [List.flatMap_nil, List.nil_append, scanStringBody.eq_def]
    simp
  | cons c cs ih =>
    rw [List.flatMap_cons, List.append_assoc, scanStringBody_escapeChar hquote, ih]
    simp [Scan.map, Scan.after, Except.map, Nat.add_assoc]

theorem head_ne_of_isClear (hquote : IsQuote quote) {rest : List Char}
    (hrest : isClear rest = true) : rest.head? ≠ some quote := by
  cases rest with
  | nil => simp
  | cons c cs =>
    simp only [isClear, Bool.and_eq_true, bne_iff_ne] at hrest
    intro h
    obtain rfl : c = quote := Option.some.inj h
    rcases hquote with h | h
    · exact hrest.1.1.2 h
    · exact hrest.1.2 h

theorem escapeChar_head_ne (hquote : IsQuote quote) (c : Char) (tail : List Char) :
    (escapeChar hexControls quote c ++ tail).head? ≠ some quote := by
  have hslash := hquote.ne_slash
  simp only [escapeChar]
  repeat' split
  all_goals simp_all

/-- A string in quotes is scanned to the string, whether or not its control characters are
escaped. -/
theorem scanString_quoted (hquote : IsQuote quote) (s : String) {rest : List Char}
    (hrest : isClear rest = true) :
    scanString false ((quoted hexControls quote s).toList ++ rest) =
      ⟨.ok s.toList, (quoted hexControls quote s).length⟩ := by
  have hbody := scanStringBody_escape hquote hexControls s.toList rest
  have htriple : ∀ d e tail, s.toList.flatMap (escapeChar hexControls quote) ++ quote :: rest =
      d :: e :: tail → ¬ (d = quote ∧ e = quote) := by
    rintro d e tail heq ⟨rfl, he⟩
    cases hs : s.toList with
    | nil =>
      rw [hs] at heq
      simp only [List.flatMap_nil, List.nil_append, List.cons.injEq] at heq
      apply head_ne_of_isClear hquote hrest
      rw [heq.2, he]
      rfl
    | cons c cs =>
      rw [hs, List.flatMap_cons, List.append_assoc] at heq
      apply escapeChar_head_ne hquote c
      rw [heq]
      rfl
  have htext : (quoted hexControls quote s).toList ++ rest =
      quote :: (s.toList.flatMap (escapeChar hexControls quote) ++ quote :: rest) := by
    simp [quoted, escape]
  have hlength : (quoted hexControls quote s).length =
      1 + ((s.toList.flatMap (escapeChar hexControls quote)).length + 1) := by
    simp [quoted, escape, ← String.length_toList]
    omega
  rw [htext, scanString.eq_def, hlength]
  dsimp only
  split
  · next d e tail heq =>
    rw [if_neg (htriple d e tail heq), ← heq, hbody]
    rfl
  · rw [hbody]
    rfl

theorem scanLexeme_quote (hquote : IsQuote quote) (cs : List Char) :
    scanLexeme (quote :: cs) = (scanString false (quote :: cs)).map (stringLexeme false) := by
  have hline : quote ≠ '\n' := by rcases hquote with rfl | rfl <;> decide
  have hstart : isNameStart quote = false := by rcases hquote with rfl | rfl <;> decide
  have hdigit : quote.isDigit = false := by rcases hquote with rfl | rfl <;> decide
  have hopens : quote = '"' ∨ quote = '\'' := hquote
  rw [scanLexeme, if_neg hline, hstart, hdigit, if_pos hopens]
  rfl

theorem scanLexeme_string (hquote : IsQuote quote) (s : String) {rest : List Char}
    (hrest : isClear rest = true) :
    scanLexeme ((quoted hexControls quote s).toList ++ rest) =
      ⟨.ok (.string s), (quoted hexControls quote s).length⟩ := by
  have hscan : scanString false ((quoted hexControls quote s).toList ++ rest) = _ :=
    scanString_quoted hquote s hrest
  obtain ⟨tail, htail⟩ : ∃ tail, (quoted hexControls quote s).toList ++ rest = quote :: tail := by
    simp [quoted]
  rw [htail] at hscan ⊢
  rw [scanLexeme_quote hquote, hscan]
  simp [Scan.map, Except.map, stringLexeme]

end Quoted

/-! ## Strings of several lines -/

theorem scanStringBody_lone {c : Char} {tail : List Char}
    (htail : ∀ rest, tail ≠ c :: c :: rest) :
    scanStringBody c true false (c :: tail) =
      ((scanStringBody c true false tail).map (c :: ·)).after 1 := by
  rw [scanStringBody.eq_def]
  simp only [if_true]
  match tail with
  | [] => rfl
  | [_] => rfl
  | d :: e :: rest =>
    have hne : ¬ (d = c ∧ e = c) := by
      rintro ⟨rfl, rfl⟩
      exact htail rest rfl
    simp only [Bool.not_true, Bool.false_eq_true, if_false, if_neg hne]

theorem tripleBody_head {c : Char} (hc : c ≠ '"') (cs tail : List Char) :
    ∃ d ds, tripleBody (c :: cs) ++ tail = d :: ds ∧ d ≠ '"' := by
  simp only [tripleBody, hc, false_and, if_false]
  split
  · exact ⟨_, _, rfl, by decide⟩
  · exact ⟨_, _, rfl, hc⟩

/-- A quote that is printed as it is does not close the string. -/
theorem tripleBody_ne {cs : List Char} (hall : cs.all (· == '"') = false)
    (hquotes : ['"', '"'].isPrefixOf cs = false) (tail rest : List Char) :
    tripleBody cs ++ tail ≠ '"' :: '"' :: rest := by
  match cs with
  | [] => simp at hall
  | c :: cs =>
    by_cases hc : c = '"'
    · subst hc
      match cs with
      | [] => simp at hall
      | d :: cs =>
        have hd : d ≠ '"' := by
          rintro rfl
          simp at hquotes
        obtain ⟨e, es, heq, he⟩ := tripleBody_head hd cs tail
        rw [tripleBody]
        split
        · simp
        split
        · simp
        · rw [List.cons_append, heq]
          intro h
          simp only [List.cons.injEq, true_and] at h
          exact he h.1
    · obtain ⟨e, es, heq, he⟩ := tripleBody_head hc cs tail
      rw [heq]
      intro h
      simp only [List.cons.injEq] at h
      exact he h.1

theorem scanStringBody_tripleBody (cs rest : List Char) :
    scanStringBody '"' true false (tripleBody cs ++ '"' :: '"' :: '"' :: rest) =
      ⟨.ok cs, (tripleBody cs).length + 3⟩ := by
  have hquote : IsQuote '"' := .inl rfl
  induction cs with
  | nil =>
    rw [tripleBody, List.nil_append, scanStringBody.eq_def]
    simp
  | cons c cs ih =>
    rw [tripleBody]
    split
    · next h =>
      subst h
      rw [List.cons_append, List.cons_append, scanStringBody_simple hquote rfl, ih]
      simp [Scan.map, Scan.after, Except.map]
      omega
    split
    · next h =>
      obtain ⟨rfl, -⟩ := h
      rw [List.cons_append, List.cons_append, scanStringBody_simple hquote rfl, ih]
      simp [Scan.map, Scan.after, Except.map]
      omega
    · next hslash hplain =>
      by_cases hc : c = '"'
      · subst hc
        simp only [true_and, not_or, Bool.not_eq_true] at hplain
        rw [List.cons_append, scanStringBody_lone fun _ => tripleBody_ne hplain.1 hplain.2 _ _, ih]
        simp [Scan.map, Scan.after, Except.map]
        omega
      · rw [List.cons_append, scanStringBody_plain hc hslash fun _ => rfl, ih]
        simp [Scan.map, Scan.after, Except.map]
        omega

/-- A string printed on several lines is scanned to the string. -/
theorem scanLexeme_tripleQuoted (s : String) (rest : List Char) :
    scanLexeme ((tripleQuoted s).toList ++ rest) =
      ⟨.ok (.string s), (tripleQuoted s).length⟩ := by
  have hbody := scanStringBody_tripleBody s.toList rest
  have htext : (tripleQuoted s).toList ++ rest =
      '"' :: '"' :: '"' :: (tripleBody s.toList ++ '"' :: '"' :: '"' :: rest) := by
    simp [tripleQuoted]
  have hlength : (tripleQuoted s).length = 3 + ((tripleBody s.toList).length + 3) := by
    simp [tripleQuoted, ← String.length_toList]
    omega
  have hscan : scanString false ('"' :: '"' :: '"' ::
      (tripleBody s.toList ++ '"' :: '"' :: '"' :: rest)) =
        ⟨.ok s.toList, 3 + ((tripleBody s.toList).length + 3)⟩ := by
    rw [scanString.eq_def]
    simp [hbody, Scan.after]
  rw [htext, scanLexeme_quote (.inl rfl), hscan, hlength]
  simp [Scan.map, Except.map, stringLexeme]

/-- A symbol is scanned to itself before text that does not make it longer. -/
theorem scanLexeme_symbol (sign : Symbol) {rest : List Char} (hrest : isSevered rest = true) :
    scanLexeme (sign.text.toList ++ rest) = ⟨.ok (.symbol sign), sign.text.length⟩ := by
  have hscan : scanSymbol? (sign.text.toList ++ rest) = some sign := by
    cases rest with
    | nil => cases sign <;> rfl
    | cons c cs =>
      simp only [isSevered, Bool.and_eq_true, bne_iff_ne] at hrest
      obtain ⟨⟨⟨h1, h2⟩, h3⟩, h4⟩ := hrest
      -- What follows is looked at for the symbols only that have a longer form.
      cases sign <;> first | rfl | simp [Symbol.text, scanSymbol?, h1, h2, h3, h4]
  obtain ⟨c, cs, htext, hc⟩ : ∃ c cs, sign.text.toList = c :: cs ∧ c ≠ '\n' ∧
      isNameStart c = false ∧ c.isDigit = false ∧ ¬ (c = '"' ∨ c = '\'') := by
    cases sign <;> exact ⟨_, _, rfl, by decide⟩
  rw [htext] at hscan ⊢
  rw [List.cons_append] at hscan ⊢
  rw [scanLexeme, if_neg hc.1, hc.2.1, hc.2.2.1, if_neg hc.2.2.2, hscan]
  rfl

/-- Brackets and separators are scanned to themselves before any text. -/
theorem scanLexeme_mark (sign : Symbol)
    (hsign : sign ∈ [.colon, .comma, .dot, .atSign, .leftParen, .rightParen, .leftBracket,
      .rightBracket, .leftBrace, .rightBrace, .pipe]) (rest : List Char) :
    scanLexeme (sign.text.toList ++ rest) = ⟨.ok (.symbol sign), 1⟩ := by
  simp only [List.mem_cons, List.not_mem_nil, or_false] at hsign
  rcases hsign with rfl | rfl | rfl | rfl | rfl | rfl | rfl | rfl | rfl | rfl | rfl <;> rfl

theorem Scan.exists_of_map {α β : Type} {f : α → β} {s : Scan α} {b : β}
    (h : (s.map f).result = .ok b) : ∃ a, s.result = .ok a ∧ b = f a := by
  obtain ⟨result, length⟩ := s
  cases result with
  | error defect => nomatch h
  | ok a => exact ⟨a, rfl, (Except.ok.inj h).symm⟩

/-- A number is whole, or a double next to a decimal. -/
theorem number_of_scanNumber {cs : List Char} {k : Lexeme} (h : (scanNumber cs).result = .ok k) :
    (∃ n, k = .integer n) ∨ ∃ number, k = .float (Decimal.nearest number) := by
  have hdecimal {cs : List Char} (h : (scanDecimal cs).result = .ok k) :
      (∃ n, k = .integer n) ∨ ∃ number, k = .float (Decimal.nearest number) := by
    unfold scanDecimal at h
    dsimp only at h
    split at h
    · exact .inr ⟨_, (Except.ok.inj h).symm⟩
    · split at h
      · exact .inl ⟨_, (Except.ok.inj h).symm⟩
      · nomatch h
  unfold scanNumber at h
  split at h
  · split at h
    · next base _ =>
      change (scanBased base _).result = .ok k at h
      unfold scanBased at h
      dsimp only at h
      split at h
      · exact .inl ⟨_, (Except.ok.inj h).symm⟩
      · nomatch h
    · exact hdecimal h
  · exact hdecimal h

/-- Which scanner finds a lexeme. -/
inductive Scanned (c : Char) (cs : List Char) (k : Lexeme) : Prop
  | feed (kind : k = .newline)
  | word (first : isNameStart c = true) (scan : scanLexeme (c :: cs) = scanWord (c :: cs))
  | number (scan : scanLexeme (c :: cs) = scanNumber (c :: cs))
  | string (scan : scanLexeme (c :: cs) = (scanString false (c :: cs)).map (stringLexeme false))
  | symbol (sign : Symbol) (kind : k = .symbol sign)

theorem scanned_of_scan {c : Char} {cs : List Char} {k : Lexeme}
    (h : (scanLexeme (c :: cs)).result = .ok k) : Scanned c cs k := by
  by_cases hfeed : c = '\n'
  · rw [scanLexeme, if_pos hfeed] at h
    exact .feed (Except.ok.inj h).symm
  by_cases hword : isNameStart c = true
  · exact .word hword (by rw [scanLexeme, if_neg hfeed, if_pos hword])
  by_cases hdigit : c.isDigit = true
  · exact .number (by rw [scanLexeme, if_neg hfeed, if_neg hword, if_pos hdigit])
  by_cases hquote : c = '"' ∨ c = '\''
  · exact .string (by rw [scanLexeme, if_neg hfeed, if_neg hword, if_neg hdigit, if_pos hquote])
  rw [scanLexeme, if_neg hfeed, if_neg hword, if_neg hdigit, if_neg hquote] at h
  cases hsign : scanSymbol? (c :: cs) with
  | some sign =>
    rw [hsign] at h
    exact .symbol sign (Except.ok.inj h).symm
  | none =>
    rw [hsign] at h
    cases h

end StagedScript.Syntax
