import StagedScript.Proofs.Outcome
import StagedScript.Proofs.Syntax.ExpressionSettling
import StagedScript.Proofs.Syntax.FieldText
import StagedScript.Proofs.Syntax.RoundTrip

/-!
# Formatted strings are read back

The printed text of a formatted string is the quoted form of its body: literal
text with doubled braces, and fields whose texts need no escapes.  So the body is
read as it was written, its pieces are the parts of the string, and each field is
read back like an expression of its own.
-/

namespace StagedScript.Syntax

open Text StagedScript.Syntax.Parser

/-! ## The body -/

/-- A character of literal text; braces are doubled. -/
def doubled (c : Char) : List Char :=
  if c = '\x7b' ∨ c = '\x7d' then [c, c] else [c]

def formMark (written : Bool) : List Char :=
  if written then ['!', 'r'] else []

def partChars : FormattedPart → List Char
  | .literal text => text.toList.flatMap doubled
  | .field value written =>
    '\x7b' :: ((value.render '\'' 0).toList ++ formMark written ++ ['\x7d'])

def bodyChars (parts : List FormattedPart) : List Char :=
  parts.flatMap partChars

/-- The literal text of a part, unless it is a field. -/
def FormattedPart.literal? : FormattedPart → Option String
  | .literal text => some text
  | .field _ _ => none

/-- No literal text is empty, and none follows on another, as in every formatted string that is
read. -/
def IsNormal : List (Option String) → Prop
  | [] => True
  | none :: texts => IsNormal texts
  | some text :: texts => text ≠ "" ∧ texts.head?.join = none ∧ IsNormal texts

/-- The parts of a formatted string that can be read from its text.  An expression in a field fits
it and does not start with a brace, which would be read as a part of a doubled one. -/
structure PartsFit (parts : List FormattedPart) : Prop where
  normal : IsNormal (parts.map FormattedPart.literal?)
  fields : ∀ value written, .field value written ∈ parts →
    value.FitsField ∧ (value.render '\'' 0).toList.head? ≠ some '\x7b'

namespace PartsFit

variable {text : String} {value : Expr} {written : Bool} {parts : List FormattedPart}

theorem of_literal (h : PartsFit (.literal text :: parts)) : PartsFit parts :=
  ⟨h.normal.2.2, fun value written hmem => h.fields value written (List.mem_cons_of_mem _ hmem)⟩

theorem of_field (h : PartsFit (.field value written :: parts)) : PartsFit parts :=
  ⟨h.normal, fun value written hmem => h.fields value written (List.mem_cons_of_mem _ hmem)⟩

theorem isField (h : PartsFit parts) (hmem : .field value written ∈ parts) :
    IsField (value.render '\'' 0).toList :=
  Expr.isField 0 value (h.fields value written hmem).1

end PartsFit

/-- No brace is a part of an escape. -/
theorem ne_brace_of_mem_escapeChar {c d : Char} (hc : ¬ (c = '\x7b' ∨ c = '\x7d'))
    (hd : d ∈ escapeChar true '"' c) : ¬ (d = '\x7b' ∨ d = '\x7d') := by
  by_cases hsmall : c.toNat < 128
  · have hall : ∀ n < 128, (Char.ofNat n = '\x7b' ∨ Char.ofNat n = '\x7d') ∨
        (escapeChar true '"' (Char.ofNat n)).all (fun d => d != '\x7b' && d != '\x7d') = true := by
      decide +kernel
    rw [← c.ofNat_toNat] at hc hd
    have hd' := List.all_eq_true.mp ((hall _ hsmall).resolve_left hc) d hd
    simpa using hd'
  · have hordinary := isOrdinary_of_isInert (isInert_of_le (Nat.not_lt.mp hsmall))
    rw [escapeChar_of_isOrdinary (.inl rfl) hordinary] at hd
    obtain rfl := List.mem_singleton.mp hd
    exact hc

/-- It does not matter whether braces are doubled before or after the escapes. -/
theorem doubled_escapeChar (c : Char) :
    (escapeChar true '"' c).flatMap doubled = (doubled c).flatMap (escapeChar true '"') := by
  by_cases hc : c = '\x7b' ∨ c = '\x7d'
  · rcases hc with rfl | rfl <;> decide
  · have hkept : (escapeChar true '"' c).flatMap doubled = (escapeChar true '"' c).flatMap ([·]) :=
      List.flatMap_congr fun d hd => if_neg (ne_brace_of_mem_escapeChar hc hd)
    rw [hkept, List.flatMap_singleton', doubled, if_neg hc, List.flatMap_singleton]

theorem toList_formattedLiteral (text : String) : (formattedLiteral '"' text).toList =
    (text.toList.flatMap doubled).flatMap (escapeChar true '"') := by
  change (String.ofList ((escape true '"' text).flatMap doubled)).toList = _
  rw [String.toList_ofList, escape, List.flatMap_assoc, List.flatMap_assoc]
  exact List.flatMap_congr fun c _ => doubled_escapeChar c

/-- The printed parts are their characters with escapes, of which a field needs none. -/
theorem toList_renderParts {parts : List FormattedPart} (h : PartsFit parts) :
    (renderParts '"' parts).toList = (bodyChars parts).flatMap (escapeChar true '"') := by
  match parts, h with
  | [], _ => rfl
  | .literal text :: parts, h =>
    rw [renderParts, String.toList_append, toList_formattedLiteral, toList_renderParts h.of_literal,
      ← List.flatMap_append]
    rfl
  | .field value written :: parts, h =>
    have hplain : (value.render '\'' 0).toList.flatMap (escapeChar true '"') =
        (value.render '\'' 0).toList := by
      rw [List.flatMap_congr (h.isField List.mem_cons_self).plain]
      exact List.flatMap_singleton' _
    have hmark : (formMark written).flatMap (escapeChar true '"') = formMark written := by
      cases written <;> decide
    have hopening : escapeChar true '"' '\x7b' = ['\x7b'] := by decide
    have hclosing : escapeChar true '"' '\x7d' = ['\x7d'] := by decide
    have htext : (if written then "!r" else "").toList = formMark written := by
      cases written <;> rfl
    have hquote : otherQuote '"' = '\'' := rfl
    rw [bodyChars, List.flatMap_cons, List.flatMap_append, ← bodyChars, partChars,
      ← toList_renderParts h.of_field]
    simp [renderParts, hquote, htext, hplain, hmark, hopening, hclosing]

/-- A formatted string is printed as its prefix and the quoted form of its body. -/
theorem formattedText_eq {parts : List FormattedPart} (h : PartsFit parts) :
    formattedText parts = 'f' :: (sourceQuoted '"' (String.ofList (bodyChars parts))).toList := by
  simp [formattedText, toList_renderParts h, sourceQuoted, quoted, escape]

/-- A quoted text behind the prefix is scanned to a formatted string. -/
theorem scanLexeme_formatted (body : String) {rest : List Char} (hrest : isClear rest = true) :
    scanLexeme ('f' :: (sourceQuoted '"' body).toList ++ rest) =
      ⟨.ok (.formatted body), (sourceQuoted '"' body).length + 1⟩ := by
  have hscan : scanString false ((sourceQuoted '"' body).toList ++ rest) = _ :=
    scanString_quoted (.inl rfl) body hrest
  obtain ⟨tail, htail⟩ : ∃ tail, (sourceQuoted '"' body).toList ++ rest = '"' :: tail := by
    simp [sourceQuoted, quoted]
  have hword : ('f' :: '"' :: tail).takeWhile isNamePart = ['f'] := by
    rw [List.takeWhile_cons_of_pos (by decide), List.takeWhile_cons_of_neg (by decide)]
  have hlexeme : scanLexeme ('f' :: '"' :: tail) = scanWord ('f' :: '"' :: tail) := by
    rw [scanLexeme, if_neg (by decide), if_pos (by decide)]
  have hstarts : startsString ('"' :: tail) = true := rfl
  have hformatted : stringPrefix? ['f'] = some (true, false) := by decide
  rw [htail] at hscan
  rw [List.cons_append, htail, hlexeme, scanWord, hword]
  simp only [List.length_singleton, List.drop_succ_cons, List.drop_zero, hstarts, if_true, hformatted,
    hscan]
  simp [Scan.map, Scan.after, Except.map, stringLexeme, sourceQuoted, Nat.add_comm]

theorem formattedBody_eq {parts : List FormattedPart} (h : PartsFit parts) :
    formattedBody parts = String.ofList (bodyChars parts) := by
  have hclear : isClear [] = true := rfl
  have hscan := scanLexeme_formatted (String.ofList (bodyChars parts)) hclear
  rw [List.append_nil, ← formattedText_eq h] at hscan
  rw [formattedBody, hscan]

theorem partsWorded_of_fit {parts : List FormattedPart} (h : PartsFit parts) :
    PartsWorded parts := by
  intro rest hrest
  rw [formattedBody_eq h, formattedText_eq h, scanLexeme_formatted _ hrest, List.length_cons,
    String.length_toList]

/-! ## Pieces -/

/-- Doubled braces and other characters are literal text. -/
theorem piecesFrom_doubled (text acc cs : List Char) :
    piecesFrom acc (text.flatMap doubled ++ cs) = piecesFrom (text.reverse ++ acc) cs := by
  induction text generalizing acc with
  | nil => rfl
  | cons c text ih =>
    have hone : piecesFrom acc (doubled c ++ (text.flatMap doubled ++ cs)) =
        piecesFrom (c :: acc) (text.flatMap doubled ++ cs) := by
      by_cases hc : c = '\x7b' ∨ c = '\x7d'
      · rw [doubled, if_pos hc]
        rcases hc with rfl | rfl <;> simp [piecesFrom]
      · obtain ⟨hopening, hclosing⟩ := not_or.mp hc
        rw [doubled, if_neg hc, List.singleton_append, piecesFrom] <;> simp [hopening, hclosing]
    rw [List.flatMap_cons, List.append_assoc, hone, ih, List.reverse_cons, List.append_assoc]
    rfl

/-- The expression text is parted from the mark. -/
theorem fieldParts_eq {t : List Char} (h : IsField t) (written : Bool) :
    fieldParts (t ++ formMark written) = (t, written) := by
  cases written with
  | true => simp [fieldParts, formMark]
  | false =>
    obtain ⟨s, c, rfl, -, hlast⟩ := h.ends
    rw [formMark, if_neg Bool.false_ne_true, List.append_nil]
    unfold fieldParts
    rw [List.reverse_concat]
    split
    · next heq =>
      obtain ⟨rfl, hs⟩ := List.cons.inj heq
      exact absurd (by rw [← List.head?_reverse, hs]; rfl) (hlast (by decide))
    · next heq =>
      obtain ⟨rfl, hs⟩ := List.cons.inj heq
      exact absurd (by rw [← List.head?_reverse, hs]; rfl) (hlast (by decide))
    · rfl

theorem all_isBlank_of_isField {t : List Char} (h : IsField t) : t.all isBlank = false := by
  obtain ⟨c, hc, hblank⟩ := h.starts
  rw [List.all_eq_false]
  exact ⟨c, List.mem_of_mem_head? hc, by simp [hblank]⟩

theorem trim_of_isField {t : List Char} (h : IsField t) :
    trim (String.ofList t) = String.ofList t := by
  obtain ⟨c, hc, hstart⟩ := h.starts
  obtain ⟨s, d, hends, hend, -⟩ := h.ends
  have hfront : t.dropWhile isBlank = t := by
    obtain ⟨rest, rfl⟩ := List.head?_eq_some_iff.mp hc
    exact List.dropWhile_cons_of_neg (by simp [hstart])
  have hback : t.reverse.dropWhile isBlank = t.reverse := by
    rw [hends, List.reverse_concat]
    exact List.dropWhile_cons_of_neg (by simp [hend])
  simp [trim, trimStart, trimStartWhile, trimEnd, trimEndWhile, hfront, hback]

/-- A field is one piece. -/
theorem piecesFrom_field {t : List Char} (h : IsField t) (hbrace : t.head? ≠ some '\x7b')
    (written : Bool) (acc cs : List Char) :
    piecesFrom acc ('\x7b' :: (t ++ formMark written ++ ['\x7d']) ++ cs) =
      (flush acc ++ .field (String.ofList t) written :: (piecesFrom [] cs).1,
        (piecesFrom [] cs).2) := by
  have hmark : Passes (formMark written) :=
    passes_of_inert (List.all_eq_true.mp (by cases written <;> decide))
  have hclosing : fieldEnd? 0 none ('\x7d' :: cs) = some ([], cs) := by
    rw [fieldEnd?]
    simp
  have hend : fieldEnd? 0 none (t ++ formMark written ++ ['\x7d'] ++ cs) =
      some (t ++ formMark written, cs) := by
    rw [List.append_assoc, h.passes.append hmark 0 _ (Int.le_refl 0)]
    simp [hclosing]
  have hsingle : ∀ rest, t ++ formMark written ++ ['\x7d'] ++ cs = '\x7b' :: rest → False := by
    intro rest heq
    obtain ⟨c, hc, -⟩ := h.starts
    obtain ⟨t, rfl⟩ := List.head?_eq_some_iff.mp hc
    obtain ⟨rfl, -⟩ := List.cons.inj heq
    exact hbrace rfl
  rw [List.cons_append, piecesFrom]
  · split
    · next hnone => exact absurd (hend.symm.trans hnone) (Option.some_ne_none _)
    · next field rest hsome =>
      obtain ⟨rfl, rfl⟩ := Prod.mk.inj (Option.some.inj (hend.symm.trans hsome))
      simp [fieldParts_eq h, all_isBlank_of_isField h, trim_of_isField h]
  · exact hsingle

/-- The piece that a part is read as. -/
def partPiece : FormattedPart → Piece
  | .literal text => .literal text
  | .field value written => .field (value.render '\'' 0) written

theorem piecesFrom_bodyChars {parts : List FormattedPart} (h : PartsFit parts) (acc : List Char)
    (hacc : acc ≠ [] → (parts.map FormattedPart.literal?).head?.join = none) :
    piecesFrom acc (bodyChars parts) = (flush acc ++ parts.map partPiece, none) := by
  induction parts generalizing acc with
  | nil => simp [bodyChars, piecesFrom]
  | cons part parts ih =>
    cases part with
    | literal text =>
      obtain rfl : acc = [] := by
        by_contra hne
        exact Option.some_ne_none _ (hacc hne)
      have hrest := ih h.of_literal text.toList.reverse fun _ => h.normal.2.1
      rw [bodyChars, List.flatMap_cons, ← bodyChars, partChars, piecesFrom_doubled, List.append_nil,
        hrest]
      simp [flush, partPiece, h.normal.1]
    | field value written =>
      have hrest := ih h.of_field [] fun hne => absurd rfl hne
      rw [bodyChars, List.flatMap_cons, ← bodyChars, partChars,
        piecesFrom_field (h.isField List.mem_cons_self)
          (h.fields value written List.mem_cons_self).2, hrest]
      simp [flush, partPiece]

/-- The body of a formatted string is cut into its parts. -/
theorem bodyPieces_formattedBody {parts : List FormattedPart} (h : PartsFit parts) :
    bodyPieces (formattedBody parts) = (parts.map partPiece, none) := by
  rw [bodyPieces, formattedBody_eq h, String.toList_ofList,
    piecesFrom_bodyChars h [] fun hne => absurd rfl hne]
  rfl

theorem Expr.FitsField.legible {e : Expr} (h : e.FitsField) : e.Legible :=
  Expr.Holds.mono
    (fun c hc =>
      match c, hc with
      | .float _, hc => hc.2
      | .none, _ | .bool _, _ | .int _, _ | .string _, _ => trivial)
    (fun _ hparts => hparts.elim) e h

theorem Expr.FitsField.spells {e : Expr} (h : e.FitsField) :
    Spells (e.render '\'' 0).toList (e.lexemes 0) :=
  Expr.spells_render (.inr rfl) 0 e
    (Expr.Holds.mono (fun _ _ => trivial) (fun _ hparts => hparts.elim) e h)

/-- The parts are read back if the texts of their fields are. -/
theorem mapM_partPiece {parts : List FormattedPart} {f : Piece → Except SyntaxFault FormattedPart}
    (hliteral : ∀ text, f (.literal text) = .ok (.literal text))
    (hfield : ∀ value written, .field value written ∈ parts →
      ∃ e, f (.field (value.render '\'' 0) written) = .ok (.field e written) ∧
        e.bare = value.plain) :
    ∃ parts', (parts.map partPiece).mapM f = .ok parts' ∧
      stripParts .literal parts' = stripParts Constant.plain parts := by
  induction parts with
  | nil => exact ⟨[], rfl, rfl⟩
  | cons part parts ih =>
    obtain ⟨parts', hrun, hsame⟩ := ih fun value written hmem =>
      hfield value written (List.mem_cons_of_mem _ hmem)
    cases part with
    | literal text =>
      refine ⟨.literal text :: parts', ?_, congrArg (FormattedPart.literal text :: ·) hsame⟩
      rw [List.map_cons, List.mapM_cons, hrun, partPiece, hliteral]
      rfl
    | field value written =>
      obtain ⟨e, he, hvalue⟩ := hfield value written List.mem_cons_self
      refine ⟨.field e written :: parts', ?_, ?_⟩
      · rw [List.map_cons, List.mapM_cons, hrun, partPiece, he]
        rfl
      · exact congrArg₂ (FormattedPart.field · written :: ·) hvalue hsame

/-- A formatted string is legible if each of its expressions fits its field. -/
theorem partsLegible_of_fit {parts : List FormattedPart} (h : PartsFit parts) :
    PartsLegible parts := by
  refine ⟨partsWorded_of_fit h, fun n span hn => ?_⟩
  rw [formattedParts, bodyPieces_formattedBody h]
  simp only [bind_pure]
  refine mapM_partPiece (fun _ => rfl) fun value written hmem => ?_
  have hfits := (h.fields value written hmem).1
  have hpiece : .field (value.render '\'' 0) written ∈ (bodyPieces (formattedBody parts)).1 := by
    rw [bodyPieces_formattedBody h]
    exact List.mem_map.mpr ⟨_, hmem, rfl⟩
  -- A field is shorter than the body, so the depth that the body allows is enough for it.
  have hlength := length_field hpiece
  obtain ⟨m, rfl⟩ : ∃ m, n = m + 1 := ⟨n - 1, by omega⟩
  obtain ⟨e, he, hvalue⟩ := whole_of_spells hfits.spells hfits.legible (m := m) (by omega)
  exact ⟨e, by simp [he], hvalue⟩

/-- The printed text of an expression with such formatted strings is read as its plain form. -/
theorem readExpr_print_of_fit {e : Expr} (h : e.Holds Constant.Legible PartsFit) :
    ∃ e', readExpr e.print = .ok e' ∧ e'.bare = e.plain :=
  readExpr_print (Expr.Holds.mono (fun _ hc => hc) (fun _ hparts => partsLegible_of_fit hparts) e h)

end StagedScript.Syntax
