import StagedScript.Proofs.Syntax.ExpressionText
import StagedScript.Syntax.Parser.Formatted

/-!
# The text of fields

A field of a formatted string ends at the first closing brace that is outside of
quotes and inner brackets.  An expression is found there as a whole if there are
no formatted strings in it and its strings have ordinary characters only: nothing
in its text is escaped, its brackets and quotes are closed, and it does not end
like the mark of the written form.
-/

namespace StagedScript.Syntax

open Text

/-- The character stands for itself in a string with either quote. -/
def isOrdinary (c : Char) : Bool :=
  c != '\\' && c != '"' && c != '\'' && !isControl c

/-- The character neither opens nor closes anything in a field. -/
def isInert (c : Char) : Bool :=
  isOrdinary c && !(['(', ')', '[', ']', '\x7b', '\x7d'].contains c)

/-- The character can be the first or the last one of a field. -/
def isSolid (c : Char) : Bool :=
  isInert c && !isBlank c && c != '!'

theorem escapeChar_of_isOrdinary {c quote : Char} (hquote : IsQuote quote)
    (h : isOrdinary c = true) : escapeChar true quote c = [c] := by
  simp only [isOrdinary, Bool.and_eq_true, bne_iff_ne, Bool.not_eq_true'] at h
  obtain ⟨⟨⟨hslash, hdouble⟩, hsingle⟩, hcontrol⟩ := h
  have hne : c ≠ quote := by
    rcases hquote with rfl | rfl
    · exact hdouble
    · exact hsingle
  have hfeed : c ≠ '\n' ∧ c ≠ '\t' ∧ c ≠ '\r' := by
    refine ⟨?_, ?_, ?_⟩ <;> rintro rfl <;> exact absurd hcontrol (by decide)
  rw [escapeChar, if_neg hslash, if_neg hfeed.1, if_neg hfeed.2.1, if_neg hfeed.2.2, if_neg hne,
    hcontrol]
  rfl

theorem isOrdinary_of_isInert {c : Char} (h : isInert c = true) : isOrdinary c = true :=
  (Bool.and_eq_true_iff.mp h).1

theorem isInert_of_isSolid {c : Char} (h : isSolid c = true) : isInert c = true :=
  (Bool.and_eq_true_iff.mp (Bool.and_eq_true_iff.mp h).1).1

/-- A blank character is not a part of names. -/
theorem isBlank_of_isNamePart {c : Char} (h : isNamePart c = true) : isBlank c = false := by
  have hall : ∀ range ∈ blankRanges, ∀ k ≤ range.2 - range.1,
      isNamePart (Char.ofNat (range.1 + k)) = false := by decide +kernel
  refine Bool.eq_false_iff.mpr fun hblank => ?_
  obtain ⟨range, hrange, hc⟩ := List.any_eq_true.mp hblank
  simp only [Bool.and_eq_true, decide_eq_true_eq] at hc
  have hnot := hall range hrange (c.toNat - range.1) (by omega)
  rw [Nat.add_sub_cancel' hc.1, Char.ofNat_toNat, h] at hnot
  exact Bool.noConfusion hnot

/-- All quotes, brackets and control characters are among the first characters. -/
theorem isInert_of_le {c : Char} (h : 128 ≤ c.toNat) : isInert c = true := by
  have hne {d : Char} (hd : d.toNat < 128) : c ≠ d := fun heq => Nat.not_lt.mpr h (heq ▸ hd)
  have hcontrol : isControl c = false := by
    rw [isControl, decide_eq_false (by omega), beq_eq_false_iff_ne.mpr (by omega)]
    rfl
  simp [isInert, isOrdinary, hcontrol, hne]

theorem isSolid_of_isNamePart {c : Char} (h : isNamePart c = true) : isSolid c = true := by
  by_cases hsmall : c.toNat < 128
  · have hall : ∀ n < 128, isNamePart (Char.ofNat n) = true → isSolid (Char.ofNat n) = true := by
      decide +kernel
    rw [← c.ofNat_toNat] at h ⊢
    exact hall _ hsmall h
  · have hmark : c ≠ '!' := by
      rintro rfl
      exact hsmall (by decide)
    simp [isSolid, isInert_of_le (Nat.not_lt.mp hsmall), isBlank_of_isNamePart h, hmark]

theorem isSolid_of_isDigit {c : Char} (h : c.isDigit = true) : isSolid c = true :=
  isSolid_of_isNamePart (isNamePart_of_isDigit h)

/-- The end of a field behind the text is found with the text in front of it. -/
def Passes (t : List Char) : Prop :=
  ∀ (depth : Int) (rest : List Char), 0 ≤ depth → fieldEnd? depth none (t ++ rest) =
    (fieldEnd? depth none rest).map fun (text, rest) => (t ++ text, rest)

theorem Passes.append {t t' : List Char} (h : Passes t) (h' : Passes t') : Passes (t ++ t') := by
  intro depth rest hdepth
  rw [List.append_assoc, h depth _ hdepth, h' depth _ hdepth, Option.map_map]
  simp [Function.comp_def]

theorem passes_inert {c : Char} (h : isInert c = true) : Passes [c] := by
  intro depth rest _
  simp only [isInert, isOrdinary, Bool.and_eq_true, bne_iff_ne, Bool.not_eq_true',
    List.contains_eq_mem, decide_eq_false_iff_not, List.mem_cons, List.not_mem_nil, or_false,
    not_or] at h
  rw [List.singleton_append, fieldEnd?]
  simp [h]

theorem passes_nil : Passes [] := by
  intro depth rest _
  simp

theorem passes_of_inert {t : List Char} (h : ∀ c ∈ t, isInert c = true) : Passes t := by
  induction t with
  | nil => exact passes_nil
  | cons c t ih =>
    obtain ⟨hc, ht⟩ := List.forall_mem_cons.mp h
    exact (passes_inert hc).append (ih ht)

/-- Inside of quotes everything is passed over up to the closing one. -/
theorem fieldEnd?_quoted {quote : Char} (depth : Int) {t : List Char} (h : quote ∉ t)
    (rest : List Char) : fieldEnd? depth (some quote) (t ++ quote :: rest) =
      (fieldEnd? depth none rest).map fun (text, rest) => (t ++ quote :: text, rest) := by
  induction t with
  | nil =>
    rw [List.nil_append, fieldEnd?]
    simp
  | cons c t ih =>
    have hc : c ≠ quote := (List.ne_of_not_mem_cons h).symm
    have ht : quote ∉ t := List.not_mem_of_not_mem_cons h
    rw [List.cons_append, fieldEnd?]
    simp [hc, ih ht, Function.comp_def]

theorem passes_quoted {quote : Char} (hquote : IsQuote quote) {t : List Char} (h : quote ∉ t) :
    Passes (quote :: (t ++ [quote])) := by
  intro depth rest _
  have hopens : quote = '\'' ∨ quote = '"' := hquote.symm
  rw [List.cons_append, List.append_assoc, List.singleton_append, fieldEnd?]
  simp [hopens, fieldEnd?_quoted depth h, Function.comp_def]

theorem passes_bracketed {opening closing : Char}
    (hpair : (opening, closing) ∈ [('(', ')'), ('[', ']'), ('\x7b', '\x7d')]) {t : List Char}
    (h : Passes t) : Passes (opening :: (t ++ [closing])) := by
  intro depth rest hdepth
  have hinner := h (depth + 1) (closing :: rest) (by omega)
  have hopening : fieldEnd? depth none (opening :: (t ++ closing :: rest)) =
      (fieldEnd? (depth + 1) none (t ++ closing :: rest)).map
        fun (text, rest) => (opening :: text, rest) := by
    rw [fieldEnd?]
    simp only [List.mem_cons, Prod.mk.injEq, List.not_mem_nil, or_false] at hpair
    rcases hpair with ⟨rfl, -⟩ | ⟨rfl, -⟩ | ⟨rfl, -⟩ <;> simp
  have hclosing : fieldEnd? (depth + 1) none (closing :: rest) =
      (fieldEnd? depth none rest).map fun (text, rest) => (closing :: text, rest) := by
    have hopen : depth + 1 ≠ 0 := by omega
    rw [fieldEnd?]
    simp only [List.mem_cons, Prod.mk.injEq, List.not_mem_nil, or_false] at hpair
    rcases hpair with ⟨-, rfl⟩ | ⟨-, rfl⟩ | ⟨-, rfl⟩ <;> simp [hopen]
  rw [List.cons_append, List.append_assoc, List.singleton_append, hopening, hinner, hclosing]
  simp [Function.comp_def]

/-! ## Texts -/

theorem getLast?_append_ne {t t' : List Char} {c : Char} (h : t.getLast? ≠ some c)
    (h' : t'.getLast? ≠ some c) : (t ++ t').getLast? ≠ some c := by
  rw [List.getLast?_append]
  cases hlast : t'.getLast? with
  | none => exact h
  | some d => exact fun heq => h' (hlast.trans heq)

/-- A text that may stand in a field: nothing in it is escaped, and it is passed over as a whole. -/
structure Quiet (t : List Char) : Prop where
  plain : ∀ c ∈ t, escapeChar true '"' c = [c]
  passes : Passes t
  last : t.getLast? ≠ some '!'

namespace Quiet

variable {t t' : List Char}

theorem nil : Quiet [] :=
  ⟨List.forall_mem_nil _, passes_nil, nofun⟩

theorem append (h : Quiet t) (h' : Quiet t') : Quiet (t ++ t') where
  plain c hc := (List.mem_append.mp hc).elim (h.plain c) (h'.plain c)
  passes := h.passes.append h'.passes
  last := getLast?_append_ne h.last h'.last

theorem of_inert (h : t.all isInert = true) (hlast : t.getLast? ≠ some '!') : Quiet t := by
  rw [List.all_eq_true] at h
  refine ⟨fun c hc => ?_, passes_of_inert h, hlast⟩
  exact escapeChar_of_isOrdinary (.inl rfl) (isOrdinary_of_isInert (h c hc))

theorem operator (op : BinaryOp) : Quiet (' ' :: (op.text.toList ++ [' '])) := by
  apply of_inert <;> cases op <;> decide

theorem bracketed (opening closing : Char)
    (hpair : (opening, closing) ∈ [('(', ')'), ('[', ']'), ('\x7b', '\x7d')]) (h : Quiet t) :
    Quiet (opening :: (t ++ [closing])) := by
  have hpassed := passes_bracketed hpair h.passes
  simp only [List.mem_cons, Prod.mk.injEq, List.not_mem_nil, or_false] at hpair
  refine ⟨fun c hc => ?_, hpassed, ?_⟩
  · simp only [List.mem_cons, List.mem_append, List.not_mem_nil, or_false] at hc
    rcases hc with rfl | hc | rfl
    · rcases hpair with ⟨rfl, -⟩ | ⟨rfl, -⟩ | ⟨rfl, -⟩ <;> decide
    · exact h.plain c hc
    · rcases hpair with ⟨-, rfl⟩ | ⟨-, rfl⟩ | ⟨-, rfl⟩ <;> decide
  · rw [← List.cons_append, List.getLast?_concat]
    rcases hpair with ⟨-, rfl⟩ | ⟨-, rfl⟩ | ⟨-, rfl⟩ <;> decide

end Quiet

/-- The text of an expression in a field: no blanks stand around it, and it does not end like the
mark of the written form. -/
structure IsField (t : List Char) : Prop extends Quiet t where
  starts : ∃ c ∈ t.head?, isBlank c = false
  ends : ∃ s c, t = s ++ [c] ∧ isBlank c = false ∧ (c ∈ ['r', 's'] → s.getLast? ≠ some '!')

namespace IsField

variable {t t' : List Char}

/-- A text behind another one. -/
theorem after {p : List Char} (hp : Quiet p) (hstarts : ∃ c ∈ p.head?, isBlank c = false)
    (h : IsField t) : IsField (p ++ t) where
  toQuiet := hp.append h.toQuiet
  starts := by
    obtain ⟨c, hc, hblank⟩ := hstarts
    exact ⟨c, List.mem_head?_append_of_mem_head? hc, hblank⟩
  ends := by
    obtain ⟨s, c, rfl, hblank, hlast⟩ := h.ends
    exact ⟨p ++ s, c, (List.append_assoc ..).symm, hblank,
      fun hc => getLast?_append_ne hp.last (hlast hc)⟩

/-- Two texts and what stands between them. -/
theorem joined {q : List Char} (h : IsField t) (hq : Quiet q) (h' : IsField t') :
    IsField (t ++ q ++ t') :=
  after (h.append hq)
    (by
      obtain ⟨c, hc, hblank⟩ := h.starts
      exact ⟨c, List.mem_head?_append_of_mem_head? hc, hblank⟩) h'

theorem of_solid (hne : t ≠ []) (h : ∀ c ∈ t, isSolid c = true) : IsField t := by
  have hmark {c : Char} (hc : c ∈ t) : c ≠ '!' := by
    rintro rfl
    exact absurd (h _ hc) (by decide)
  have hblank {c : Char} (hc : c ∈ t) : isBlank c = false := by
    have hsolid := h c hc
    simp only [isSolid, Bool.and_eq_true, Bool.not_eq_true'] at hsolid
    exact hsolid.1.2
  have hinert : t.all isInert = true :=
    List.all_eq_true.mpr fun c hc => isInert_of_isSolid (h c hc)
  refine ⟨.of_inert hinert ?_, ?_, ?_⟩
  · exact fun hlast => hmark (List.mem_of_getLast? hlast) rfl
  · obtain ⟨c, t, rfl⟩ := List.exists_cons_of_ne_nil hne
    exact ⟨c, rfl, hblank List.mem_cons_self⟩
  · obtain ⟨s, c, rfl⟩ := (List.eq_nil_or_concat' t).resolve_left hne
    refine ⟨s, c, rfl, hblank (by simp), fun _ hlast => ?_⟩
    exact hmark (List.mem_append_left _ (List.mem_of_getLast? hlast)) rfl

theorem bracketed (opening closing : Char)
    (hpair : (opening, closing) ∈ [('(', ')'), ('[', ']'), ('\x7b', '\x7d')]) (h : Quiet t) :
    IsField (opening :: (t ++ [closing])) := by
  refine ⟨h.bracketed opening closing hpair, ?_, ?_⟩ <;>
    simp only [List.mem_cons, Prod.mk.injEq, List.not_mem_nil, or_false] at hpair
  · refine ⟨opening, rfl, ?_⟩
    rcases hpair with ⟨rfl, -⟩ | ⟨rfl, -⟩ | ⟨rfl, -⟩ <;> decide
  · refine ⟨opening :: t, closing, rfl, ?_, ?_⟩
    · rcases hpair with ⟨-, rfl⟩ | ⟨-, rfl⟩ | ⟨-, rfl⟩ <;> decide
    · rcases hpair with ⟨-, rfl⟩ | ⟨-, rfl⟩ | ⟨-, rfl⟩ <;> exact fun hmark => absurd hmark (by decide)

/-- A string of ordinary characters. -/
theorem quoted (h : ∀ c ∈ t, isOrdinary c = true) : IsField ('\'' :: (t ++ ['\''])) := by
  have hquote : IsQuote '\'' := .inr rfl
  have habsent : '\'' ∉ t := fun hmem => absurd (h _ hmem) (by decide)
  refine ⟨⟨fun c hc => ?_, passes_quoted hquote habsent, ?_⟩, ⟨'\'', rfl, by decide⟩,
    ⟨'\'' :: t, '\'', rfl, by decide, fun hmark => absurd hmark (by decide)⟩⟩
  · simp only [List.mem_cons, List.mem_append, List.not_mem_nil, or_false] at hc
    rcases hc with rfl | hc | rfl
    · decide
    · exact escapeChar_of_isOrdinary (.inl rfl) (h c hc)
    · decide
  · rw [← List.cons_append, List.getLast?_concat]
    decide

end IsField

/-- The constant can stand in a field: a string has ordinary characters only, and a double is finite
and is read back. -/
def Constant.FitsField : Constant → Prop
  | .string s => ∀ c ∈ s.toList, isOrdinary c = true
  | .float x => Decimal.isFinite x = true ∧ Decimal.ReadsBack x
  | _ => True

theorem isField_signed (negative : Bool) {t : String} (hne : t.toList ≠ [])
    (h : ∀ c ∈ t.toList, isSolid c = true) :
    IsField ((if negative then "-" else "") ++ t).toList := by
  cases negative with
  | false => simpa using IsField.of_solid hne h
  | true =>
    have hsign : IsField ('-' :: t.toList) :=
      .of_solid (List.cons_ne_nil _ _) (List.forall_mem_cons.mpr ⟨by decide, h⟩)
    simpa using hsign

theorem isSolid_magnitudeText (b : Decimal.Binary) :
    (Decimal.magnitudeText b).toList ≠ [] ∧
      ∀ c ∈ (Decimal.magnitudeText b).toList, isSolid c = true := by
  obtain ⟨whole, fraction, power?, hnumeral⟩ := isNumeral_magnitudeText b
  rw [hnumeral.text]
  refine ⟨fun hnil => hnumeral.ne_nil (List.append_eq_nil_iff.mp hnil).1, fun c hc => ?_⟩
  rcases List.mem_append.mp hc with hc | hc
  · exact isSolid_of_isDigit (hnumeral.digits c hc)
  rcases List.mem_append.mp hc with hc | hc
  · unfold fractionText at hc
    split at hc
    · nomatch hc
    · rcases List.mem_cons.mp hc with rfl | hc
      · decide
      · exact isSolid_of_isDigit (hnumeral.fractionDigits c hc)
  · cases power? with
    | none => nomatch hc
    | some power =>
      rw [powerText, toList_toString_int] at hc
      simp only [List.mem_cons, List.mem_append] at hc
      rcases hc with rfl | hc | hc
      · decide
      · split at hc
        · obtain rfl := List.mem_singleton.mp hc
          decide
        · nomatch hc
      · exact isSolid_of_isDigit (isDigit_toDigits c hc)

theorem Constant.isField (c : Constant) (h : c.FitsField) : IsField (c.text '\'').toList := by
  match c, h with
  | .none, _ | .bool true, _ | .bool false, _ =>
    exact .of_solid (by decide) (List.all_eq_true.mp (by decide))
  | .string s, h =>
    have hplain : escape true '\'' s = s.toList := by
      rw [escape, List.flatMap_congr fun c hc => escapeChar_of_isOrdinary (.inr rfl) (h c hc)]
      exact List.flatMap_singleton' _
    simpa [Constant.text, sourceQuoted, quoted, hplain] using IsField.quoted h
  | .int n, _ =>
    have hdigits : ∀ c ∈ Nat.toDigits 10 n.toInt.natAbs, isSolid c = true :=
      fun c hc => isSolid_of_isDigit (isDigit_toDigits c hc)
    rw [Constant.text, toString_int]
    exact isField_signed _ (by simp [Nat.toDigits_ne_nil]) (by simpa using hdigits)
  | .float x, h =>
    obtain ⟨b, hx⟩ := Decimal.decode_of_isFinite h.1
    obtain ⟨hne, hsolid⟩ := isSolid_magnitudeText b
    rw [Constant.text, Decimal.text, hx]
    exact isField_signed b.negative hne hsolid

/-! ## Expressions -/

/-- The expression can stand in a field: its names are names, its strings have ordinary characters,
and there are no formatted strings in it. -/
abbrev Expr.FitsField : Expr → Prop :=
  Expr.Holds Constant.FitsField fun _ => False

theorem isField_name {id : String} (h : isName id = true) : IsField id.toList := by
  simp only [isName, Bool.and_eq_true, List.all_eq_true] at h
  refine .of_solid (fun hnil => ?_) fun c hc => isSolid_of_isNamePart (h.1.2 c hc)
  rw [hnil] at h
  exact Bool.noConfusion h.1.1

theorem Quiet.commas {texts : List String} (h : ∀ text ∈ texts, IsField text.toList) :
    Quiet (Syntax.commas texts).toList := by
  induction texts with
  | nil => exact .nil
  | cons first rest ih =>
    obtain ⟨hfirst, hrest⟩ := List.forall_mem_cons.mp h
    cases rest with
    | nil => simpa [Syntax.commas] using hfirst.toQuiet
    | cons second others =>
      have hcomma : Quiet [',', ' '] := .of_inert (by decide) (by decide)
      have hall := (hfirst.append hcomma).append (ih hrest)
      rw [Syntax.commas] at hall ⊢
      rw [String.intercalate_cons_cons]
      simpa using hall

theorem IsField.parens {text : String} (h : Quiet text.toList) : IsField (inParens text).toList := by
  have hbracketed := IsField.bracketed '(' ')' (by decide) h
  simpa [inParens] using hbracketed

theorem IsField.closed {text : String} (h : IsField text.toList) (weak : Prop) [Decidable weak] :
    IsField (if weak then inParens text else text).toList := by
  split
  · exact .parens h.toQuiet
  · exact h

theorem IsField.tuple {texts : List String} (h : ∀ text ∈ texts, IsField text.toList) :
    IsField (tupleText texts).toList := by
  unfold tupleText
  split
  · next item =>
    have hcomma : Quiet [','] := .of_inert (by decide) (by decide)
    have hitem := (h item List.mem_cons_self).append hcomma
    have hbracketed := IsField.bracketed '(' ')' (by decide) hitem
    simpa using hbracketed
  · exact .parens (.commas h)

/-- A text and brackets behind it. -/
theorem IsField.subscript {text index : String} (h : IsField text.toList)
    (hindex : Quiet index.toList) : IsField (text ++ "[" ++ index ++ "]").toList := by
  have hbracketed := IsField.bracketed '[' ']' (by decide) hindex
  simpa using h.joined .nil hbracketed

mutual

/-- The text of an expression that fits a field is passed over there. -/
theorem Expr.isField (least : Nat) (e : Expr) (he : e.FitsField) :
    IsField (e.render '\'' least).toList := by
  rw [Expr.render.eq_def]
  dsimp only
  apply IsField.closed
  match e, he with
  | .name id _, he => exact isField_name he
  | .constant c _, he => exact c.isField he
  | .tuple items _, he => exact .tuple (Items.isField items he)
  | .list items _, he =>
    have h := IsField.bracketed '[' ']' (by decide)
      (.commas (Items.isField items he))
    simpa using h
  | .dict entries _, he =>
    have h := IsField.bracketed '\x7b' '\x7d' (by decide)
      (.commas (Entries.isField entries he))
    simpa using h
  | .member target field _, he =>
    have hdot : Quiet ['.'] := .of_inert (by decide) (by decide)
    simpa using (Expr.isField Strength.atom target he.1).joined hdot (isField_name he.2)
  | .subscript target index _, he =>
    apply (Expr.isField Strength.atom target he.1).subscript
    have hindex := (Expr.isField 0 index he.2).toQuiet
    match index, he.2, hindex with
    | .tuple (first :: second :: others) _, hitems, _ =>
      exact .commas (Items.isField (first :: second :: others) hitems)
    | .tuple [] _, _, h | .tuple [_] _, _, h | .name _ _, _, h | .constant _ _, _, h
    | .list _ _, _, h | .dict _ _, _, h | .member _ _ _, _, h | .subscript _ _ _, _, h
    | .call _ _ _, _, h | .binary _ _ _ _, _, h | .unary _ _ _, _, h
    | .conditional _ _ _ _, _, h => exact h
  | .call callee args _, he =>
    have hargs := IsField.parens (.commas (Items.isField args he.2))
    simpa using (Expr.isField Strength.atom callee he.1).joined .nil hargs
  | .binary op left right _, he =>
    have hleft := Expr.isField op.operandStrengths.1 left he.1
    have hright := Expr.isField op.operandStrengths.2 right he.2
    simpa using hleft.joined (.operator op) hright
  | .unary .not operand _, he =>
    have hnot : Quiet "not ".toList := .of_inert (by decide) (by decide)
    have h := IsField.after hnot ⟨'n', rfl, by decide⟩ (Expr.isField Strength.negation operand he)
    simpa using h
  | .unary .neg operand _, he =>
    have hsign : Quiet ['-'] := .of_inert (by decide) (by decide)
    have h := IsField.after hsign ⟨'-', rfl, by decide⟩ (Expr.isField Strength.sign operand he)
    simpa using h
  | .unary .pos operand _, he =>
    have hsign : Quiet ['+'] := .of_inert (by decide) (by decide)
    have h := IsField.after hsign ⟨'+', rfl, by decide⟩ (Expr.isField Strength.sign operand he)
    simpa using h
  | .conditional condition thenValue elseValue _, he =>
    have hif : Quiet " if ".toList := .of_inert (by decide) (by decide)
    have helse : Quiet " else ".toList := .of_inert (by decide) (by decide)
    have hthen := Expr.isField Strength.disjunction thenValue he.2.1
    have hcondition := Expr.isField Strength.disjunction condition he.1
    have hrest := Expr.isField Strength.conditional elseValue he.2.2
    simpa using (hthen.joined hif hcondition).joined helse hrest

/-- The same of each of the expressions. -/
theorem Items.isField (items : List Expr)
    (h : ItemsHold Constant.FitsField (fun _ => False) items) :
    ∀ text ∈ renderItems '\'' items, IsField text.toList := by
  match items, h with
  | [], _ => exact List.forall_mem_nil _
  | item :: items, h =>
    exact List.forall_mem_cons.mpr ⟨Expr.isField 0 item h.1, Items.isField items h.2⟩

/-- The same of the dictionary entries. -/
theorem Entries.isField (entries : List Entry)
    (h : EntriesHold Constant.FitsField (fun _ => False) entries) :
    ∀ text ∈ renderEntries '\'' entries, IsField text.toList := by
  match entries, h with
  | [], _ => exact List.forall_mem_nil _
  | .pair key value :: entries, h =>
    have hcolon : Quiet [':', ' '] := .of_inert (by decide) (by decide)
    have hentry := (Expr.isField 0 key h.1.1).joined hcolon (Expr.isField 0 value h.1.2)
    exact List.forall_mem_cons.mpr ⟨by simpa using hentry, Entries.isField entries h.2⟩

end

end StagedScript.Syntax
