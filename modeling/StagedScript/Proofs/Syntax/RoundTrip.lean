import StagedScript.Proofs.Syntax.ExpressionText
import StagedScript.Proofs.Syntax.LegibleReading
import StagedScript.Proofs.Syntax.Lexing

/-!
# Printed expressions are read back

The text of a legible expression is long enough for the depth that reading it
takes, so the expression is read back in its plain form.
-/

namespace StagedScript.Syntax

open Text StagedScript.Syntax.Parser

/-! ## The size of texts -/

/-- What was read is shorter than what was gone through. -/
def Scan.Outgrows (s : Scan (List Char)) : Prop :=
  ∀ text, s.result = .ok text → text.length < s.length

namespace Scan.Outgrows

theorem error (defect : Defect) (n : Nat) : Outgrows ⟨.error defect, n⟩ :=
  fun _ h => nomatch h

theorem after {s : Scan (List Char)} (h : s.Outgrows) (n : Nat) : (s.after n).Outgrows :=
  fun text htext => Nat.lt_of_lt_of_le (h text htext) (Nat.le_add_left _ _)

theorem map_after {s : Scan (List Char)} (h : s.Outgrows) {f : List Char → List Char} {n : Nat}
    (hf : ∀ text, (f text).length ≤ n + text.length) : ((s.map f).after n).Outgrows := by
  intro text htext
  obtain ⟨result, length⟩ := s
  cases result with
  | error defect => nomatch htext
  | ok inner =>
    obtain rfl := Except.ok.inj htext
    have hinner := h inner rfl
    have hle := hf inner
    show (f inner).length < n + length
    change inner.length < length at hinner
    omega

end Scan.Outgrows

theorem scanStringBody_outgrows (quote : Char) (triple raw : Bool) (cs : List Char) :
    Scan.Outgrows (scanStringBody quote triple raw cs) := by
  have one {s : Scan (List Char)} (h : s.Outgrows) (c : Char) :
      ((s.map (c :: ·)).after 1).Outgrows :=
    h.map_after fun text => by simp [Nat.add_comm]
  fun_induction scanStringBody quote triple raw cs
  case case1 | case6 | case7 | case10 | case11 => exact .error _ _
  case case2 | case3 =>
    intro text htext
    obtain rfl := Except.ok.inj htext
    decide
  case case4 ih | case5 ih | case14 ih => exact one ih _
  case case8 ih => exact ih.after 2
  case case9 ih => exact ih.map_after fun text => by simp only [List.length_cons]; omega
  case case12 ih | case13 ih => exact ih.map_after fun text => by simp only [List.length_cons]; omega

theorem scanString_outgrows (raw : Bool) (cs : List Char) :
    Scan.Outgrows (scanString raw cs) := by
  unfold scanString
  split
  · exact .error _ _
  · split
    · split
      · exact Scan.Outgrows.after (scanStringBody_outgrows _ true raw _) 3
      · exact Scan.Outgrows.after (scanStringBody_outgrows _ false raw _) 1
    · exact Scan.Outgrows.after (scanStringBody_outgrows _ false raw _) 1

theorem weight_stringLexeme_le {s : Scan (List Char)} (h : s.Outgrows) {isFormatted : Bool}
    {k : Lexeme} (hk : (s.map (stringLexeme isFormatted)).result = .ok k) :
    k.weight ≤ s.length := by
  obtain ⟨text, htext, rfl⟩ := Scan.exists_of_map hk
  have hlt : text.length < s.length := h text htext
  cases isFormatted with
  | true => simpa [stringLexeme, Lexeme.weight, Nat.succ_le_iff] using hlt
  | false => exact Nat.lt_of_le_of_lt (Nat.zero_le _) hlt

theorem wordLexeme_weight (word : List Char) : (wordLexeme word).weight = 1 := by
  unfold wordLexeme
  dsimp only
  split <;> rfl

theorem weight_le_of_scanWord {cs : List Char} {k : Lexeme} (hpos : 0 < (scanWord cs).length)
    (hk : (scanWord cs).result = .ok k) : k.weight ≤ (scanWord cs).length := by
  unfold scanWord at hk hpos ⊢
  dsimp only at hk hpos ⊢
  split at hk
  · exact Nat.le_trans (weight_stringLexeme_le (scanString_outgrows _ _) hk) (Nat.le_add_left _ _)
  · next heq =>
    obtain rfl := Except.ok.inj hk
    rw [heq] at hpos
    rw [wordLexeme_weight]
    exact hpos

/-- Numbers count once. -/
theorem weight_of_scanNumber {cs : List Char} {k : Lexeme} (hk : (scanNumber cs).result = .ok k) :
    k.weight = 1 := by
  obtain ⟨n, rfl⟩ | ⟨number, rfl⟩ := number_of_scanNumber hk <;> rfl

/-- A lexeme counts no more than it is long. -/
theorem weight_le_of_scan {c : Char} {cs : List Char} {k : Lexeme}
    (hk : (scanLexeme (c :: cs)).result = .ok k) : k.weight ≤ (scanLexeme (c :: cs)).length := by
  have hpos := length_scanLexeme_pos c cs
  cases scanned_of_scan hk with
  | feed kind => exact kind ▸ hpos
  | symbol sign kind => exact kind ▸ hpos
  | word first scan =>
    rw [scan] at hk hpos ⊢
    exact weight_le_of_scanWord hpos hk
  | number scan =>
    rw [scan] at hk hpos ⊢
    rw [weight_of_scanNumber hk]
    exact hpos
  | string scan =>
    rw [scan] at hk ⊢
    exact weight_stringLexeme_le (scanString_outgrows _ _) hk

theorem Cuts.weight_le {cs rest : List Char} {ks : List Lexeme} (h : Cuts cs ks rest) :
    weight ks + rest.length ≤ cs.length := by
  induction h with
  | nil => simp
  | blank _ ih =>
    rw [List.length_cons]
    omega
  | @cons cs rest k ks n scan fits line _ ih =>
    rw [weight_cons]
    rw [List.length_drop] at ih
    cases cs with
    | nil =>
      cases scan
      exact Bool.noConfusion line
    | cons c cs =>
      have hle := weight_le_of_scan (c := c) (congrArg Scan.result scan)
      rw [congrArg Scan.length scan] at hle
      change k.weight ≤ n at hle
      omega

/-- A text that spells a legible expression is read as its plain form at any depth that exceeds its
length. -/
theorem whole_of_spells {text : String} {e : Expr} (hspells : Spells text.toList (e.lexemes 0))
    (he : e.Legible) {m : Nat} (hm : text.length ≤ m) :
    ∃ e', (exprParsers (m + 1)).whole text = .ok e' ∧ e'.bare = e.plain := by
  obtain ⟨ts, htokens, hkinds⟩ := tokens_of_spells hspells (Expr.lexemes_ne_nil 0 e)
  have hweight : weight (e.lexemes 0) ≤ text.length := by
    have hle := (hspells.cuts [] rfl).weight_le
    simpa only [List.append_nil, List.length_nil, Nat.add_zero, String.length_toList] using hle
  obtain ⟨us, vs, rfl, hus, hvs⟩ := split_tokens hkinds
  obtain ⟨newline, vs, rfl, hnewline, hvs'⟩ := cons_tokens hvs
  obtain ⟨eof, vs, rfl, heof, hvs''⟩ := cons_tokens hvs'
  obtain rfl : vs = [] := List.map_eq_nil_iff.mp hvs''
  -- The text is at least as long as its lexemes count, so the depth of nesting suffices.
  obtain ⟨a, hread, ha⟩ := takes_exprListOf_single (Expr.Legible.readable e he)
    (Nat.le_trans hweight hm)
    ((us ++ [newline, eof]).length + 1) us [newline, eof] hus
    (by simp only [List.length_append, List.length_cons]; omega) (stops_cons hnewline (by decide))
  have hwhole : Reads (wholeExpr (exprParsers (m + 1)).expr) ((us ++ [newline, eof]).length + 1)
      (us ++ [newline, eof]) a [eof] := by
    refine Reads.bind hread ?_
    have hskip : Reads skipNewlines ((us ++ [newline, eof]).length + 1) [newline, eof] () [eof] := by
      show Except.ok ((), _) = _
      simp [hnewline, heof]
    refine Reads.bind hskip (Reads.bind (Reads.isAt _) ?_)
    rw [decide_eq_true heof]
    exact Reads.pure a
  refine ⟨a, ?_, ha⟩
  show (tokens text >>= fun ts => (wholeExpr (exprParsers (m + 1)).expr).readFrom ts) = .ok a
  rw [htokens]
  show (wholeExpr (exprParsers (m + 1)).expr).readFrom (us ++ [newline, eof]) = .ok a
  rw [readFrom]
  show Prod.fst <$> wholeExpr (exprParsers (m + 1)).expr _ _ = _
  rw [hwhole]
  rfl

/-- A text that spells a legible expression is read as its plain form. -/
theorem readExpr_of_spells {text : String} {e : Expr} (hspells : Spells text.toList (e.lexemes 0))
    (he : e.Legible) : ∃ e', readExpr text = .ok e' ∧ e'.bare = e.plain :=
  whole_of_spells hspells he (m := 4 * (text.length + 1) + 3) (by omega)

/-- The printed text of a legible expression is read as its plain form. -/
theorem readExpr_print {e : Expr} (he : e.Legible) :
    ∃ e', readExpr e.print = .ok e' ∧ e'.bare = e.plain :=
  readExpr_of_spells (Expr.spells 0 e he.worded) he

end StagedScript.Syntax
