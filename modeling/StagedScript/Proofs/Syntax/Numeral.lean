import StagedScript.Proofs.Decimal.Double
import StagedScript.Proofs.Syntax.Spelling

/-!
# Printed numbers

The digits of a double are printed as a numeral with a fraction or a power of
ten.  Source text and the reading of single numbers take it for the same double.
-/

namespace StagedScript.Syntax

open Decimal Text

/-- A numeral: digits, a fraction and a power of ten, of which one may be missing. -/
structure IsNumeral (cs whole fraction : List Char) (power? : Option Int) : Prop where
  text : cs = whole ++ (fractionText fraction ++ powerText power?)
  ne_nil : whole ≠ []
  digits : ∀ c ∈ whole, c.isDigit = true
  fractionDigits : ∀ c ∈ fraction, c.isDigit = true
  real : fraction ≠ [] ∨ power?.isSome

theorem isDigit_zero : ∀ c ∈ ['0'], c.isDigit = true :=
  List.forall_mem_singleton.mpr rfl

theorem isNumeral_positional {ds : List Char} (hne : ds ≠ []) (hds : ∀ c ∈ ds, c.isDigit = true)
    (point : Int) : ∃ whole fraction, IsNumeral (positional ds point).toList whole fraction none := by
  have hzeros (n : Nat) : ∀ c ∈ List.replicate n '0', c.isDigit = true := by
    intro c hc
    rw [List.eq_of_mem_replicate hc]
    decide
  unfold positional
  split
  · refine ⟨['0'], List.replicate (-point).toNat '0' ++ ds, ?_, by simp, isDigit_zero, ?_, ?_⟩
    · simp [fractionText, powerText, hne]
    · exact fun c hc => (List.mem_append.mp hc).elim (hzeros _ c) (hds c)
    · simp [hne]
  · next hpoint =>
    refine ⟨ds.take point.toNat ++ List.replicate (point.toNat - ds.length) '0',
      if (ds.drop point.toNat).isEmpty then ['0'] else ds.drop point.toNat, ?_, ?_, ?_, ?_, ?_⟩
    · by_cases hdrop : (ds.drop point.toNat).isEmpty = true
      · simp [fractionText, powerText, hdrop]
      · simp [fractionText, powerText, hdrop]
    · cases ds with
      | nil => exact absurd rfl hne
      | cons d ds =>
        obtain ⟨n, hn⟩ : ∃ n, point.toNat = n + 1 := ⟨point.toNat - 1, by omega⟩
        simp [hn]
    · exact fun c hc => (List.mem_append.mp hc).elim (fun hc => hds c (List.mem_of_mem_take hc))
        (hzeros _ c)
    · split
      · exact isDigit_zero
      · exact fun c hc => hds c (List.mem_of_mem_drop hc)
    · left
      split
      · simp
      · next hdrop => simpa using hdrop

theorem isNumeral_scientific {ds : List Char} (hne : ds ≠ []) (hds : ∀ c ∈ ds, c.isDigit = true)
    (power : Int) :
    ∃ whole fraction, IsNumeral (scientific ds power).toList whole fraction (some power) := by
  match ds, hne with
  | [d], _ =>
    refine ⟨[d], [], ?_, by simp, hds, by simp, .inr rfl⟩
    simp [scientific, fractionText, powerText]
  | d :: d' :: rest, _ =>
    refine ⟨[d], d' :: rest, ?_, by simp, ?_, ?_, .inr rfl⟩
    · simp [scientific, fractionText, powerText]
    · exact fun c hc => hds c (by simp_all)
    · exact fun c hc => hds c (List.mem_cons_of_mem _ hc)

/-- The magnitude of a double is printed as a numeral. -/
theorem isNumeral_magnitudeText (b : Binary) :
    ∃ whole fraction power?, IsNumeral (magnitudeText b).toList whole fraction power? := by
  unfold magnitudeText
  split
  · exact ⟨['0'], ['0'], none, by decide +kernel, by simp, isDigit_zero, isDigit_zero, by simp⟩
  · dsimp only
    split
    · obtain ⟨whole, fraction, h⟩ := isNumeral_positional Nat.toDigits_ne_nil isDigit_toDigits _
      exact ⟨whole, fraction, none, h⟩
    · obtain ⟨whole, fraction, h⟩ := isNumeral_scientific Nat.toDigits_ne_nil isDigit_toDigits _
      exact ⟨whole, fraction, _, h⟩

namespace IsNumeral

variable {cs whole fraction : List Char} {power? : Option Int}

/-- The double that a numeral is read as in source text. -/
theorem scanLexeme_append (h : IsNumeral cs whole fraction power?) {rest : List Char}
    (hrest : isClear rest = true) :
    scanLexeme (cs ++ rest) =
      ⟨.ok (.float (nearest (ofParts whole fraction (power?.getD 0)))), cs.length⟩ := by
  obtain rfl := h.text
  have hscan := scanDecimal_append power? h.digits h.fractionDigits hrest
  have hhead : ∀ c ∈ (fractionText fraction ++ (powerText power? ++ rest)).head?,
      isNamePart c = false ∨ c = 'e' := by
    intro c hc
    by_cases hempty : fraction = []
    · cases power? with
      | none => exact absurd h.real (by simp [hempty])
      | some power => exact .inr (by simpa [hempty, fractionText, powerText] using hc.symm)
    · obtain rfl : c = '.' := by simpa [fractionText, hempty] using hc.symm
      exact .inl (by decide)
  rw [List.append_assoc, List.append_assoc, scanLexeme_digits h.digits h.ne_nil,
    scanNumber_append h.digits h.ne_nil hhead]
  dsimp only at hscan
  rw [if_pos h.real] at hscan
  simpa using hscan

theorem readPower?_powerText (power? : Option Int) :
    readPower? (powerText power?) = some (power?.getD 0) := by
  cases power? with
  | none => rfl
  | some power =>
    have hds : ∀ c ∈ Nat.toDigits 10 power.natAbs, c.isDigit = true := isDigit_toDigits
    have hvalue : digitsValue (Nat.toDigits 10 power.natAbs) = power.natAbs :=
      Nat.ofDigitChars_ten_toDigits
    have hsome (negative : Bool) (ds : List Char)
        (hread : readSign ds = (negative, Nat.toDigits 10 power.natAbs)) :
        readPower? ('e' :: ds) =
          some (if negative then -(power.natAbs : Int) else power.natAbs) := by
      simp only [readPower?, hread]
      simp [hvalue, Nat.toDigits_ne_nil]
      exact hds
    rw [powerText, toList_toString_int]
    by_cases hneg : power < 0
    · rw [if_pos hneg, hsome true _ rfl]
      exact congrArg some (show -(power.natAbs : Int) = power by omega)
    · rw [if_neg hneg, List.nil_append]
      have hread : readSign (Nat.toDigits 10 power.natAbs) =
          (false, Nat.toDigits 10 power.natAbs) := by
        unfold readSign
        split
        · next heq => exact absurd (hds '-' (by simp [heq])) (by decide)
        · next heq => exact absurd (hds '+' (by simp [heq])) (by decide)
        · rfl
      rw [hsome false _ hread]
      exact congrArg some (show (power.natAbs : Int) = power by omega)

/-- The double that a numeral is read as on its own. -/
theorem readMagnitude?_eq (h : IsNumeral cs whole fraction power?) :
    readMagnitude? cs = some (nearest (ofParts whole fraction (power?.getD 0))) := by
  obtain rfl := h.text
  have hstop : ∀ c ∈ (powerText power?).head?, c.isDigit = false := by
    cases power? with
    | none => simp [powerText]
    | some power => simp [powerText]
  have hwhole : ∀ c ∈ (fractionText fraction ++ powerText power?).head?, c.isDigit = false := by
    by_cases hempty : fraction = []
    · simpa [hempty, fractionText] using hstop
    · simp [fractionText, hempty]
  have hne : whole.isEmpty = false := by simpa using h.ne_nil
  unfold readMagnitude?
  rw [takeWhile_append_of_head h.digits hwhole, dropWhile_append_of_head h.digits hwhole]
  by_cases hempty : fraction = []
  · cases power? with
    | none => exact absurd h.real (by simp [hempty])
    | some power =>
      have hpower := readPower?_powerText (some power)
      simp only [hempty, fractionText, List.isEmpty_nil, if_true, List.nil_append]
      have hpower : readPower? ('e' :: power.repr.toList) = some power := by
        simpa [powerText] using hpower
      simp [powerText, hne, hpower]
  · have hpower := readPower?_powerText power?
    simp [fractionText, hempty, hne, takeWhile_append_of_head h.fractionDigits hstop,
      dropWhile_append_of_head h.fractionDigits hstop, hpower]

end IsNumeral

/-- The digits of a double spell the double that they are read as. -/
theorem spells_magnitude (b : Binary) : Spells (magnitudeText b).toList [.float (reread b)] := by
  obtain ⟨whole, fraction, power?, hnumeral⟩ := isNumeral_magnitudeText b
  rw [reread, hnumeral.readMagnitude?_eq, Option.getD_some]
  exact .of_scan rfl (fun _ => rfl) fun rest hrest => hnumeral.scanLexeme_append hrest

end StagedScript.Syntax
