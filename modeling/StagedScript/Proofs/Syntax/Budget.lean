import StagedScript.Proofs.Syntax.Gathering
import StagedScript.Proofs.Syntax.RoundTrip
import StagedScript.Proofs.Syntax.Steps

/-!
# Budgets that suffice

The depth of nesting and the rounds of repetitions are budgets of a parser.  They
suffice if they exceed what the tokens can use up: each token counts once, and a
formatted string counts as much as the depth that its fields may need.  With
budgets that suffice a parser never runs out of them, and it makes no difference
how much they are.
-/

namespace StagedScript.Syntax

open Text

/-- How deep a token may lead; the fields of a formatted string are texts of their own. -/
def Lexeme.load : Lexeme → Nat
  | .formatted body => 4 * (body.length + 1)
  | _ => 1

def load (ts : List Token) : Nat :=
  (ts.map (·.kind.load)).sum

@[simp]
theorem load_nil : load [] = 0 := rfl

@[simp]
theorem load_cons (t : Token) (ts : List Token) : load (t :: ts) = t.kind.load + load ts := by
  simp [load]

@[simp]
theorem load_append (ts us : List Token) : load (ts ++ us) = load ts + load us := by
  simp [load]

theorem load_le_of_mem {t : Token} {ts : List Token} (h : t ∈ ts) : t.kind.load ≤ load ts := by
  obtain ⟨earlier, later, rfl⟩ := List.append_of_mem h
  rw [load_append, load_cons]
  omega

theorem Lexeme.load_pos (k : Lexeme) : 0 < k.load := by
  cases k with
  | formatted body => exact Nat.mul_pos (by decide) (Nat.succ_pos _)
  | _ => exact Nat.one_pos

theorem length_le_load (ts : List Token) : ts.length ≤ load ts := by
  induction ts with
  | nil => exact Nat.le_refl 0
  | cons t ts ih =>
    have := t.kind.load_pos
    rw [List.length_cons, load_cons]
    omega

theorem load_eq_length {ts : List Token} (h : ∀ t ∈ ts, t.kind.load = 1) :
    load ts = ts.length := by
  induction ts with
  | nil => rfl
  | cons t ts ih =>
    obtain ⟨hfirst, hothers⟩ := List.forall_mem_cons.mp h
    rw [load_cons, hfirst, ih hothers, List.length_cons, Nat.add_comm]

/-- Tokens that were taken lower the load by one each at least. -/
theorem load_suffix {rest ts : List Token} (h : rest <:+ ts) :
    load rest + (ts.length - rest.length) ≤ load ts := by
  obtain ⟨taken, rfl⟩ := h
  have := length_le_load taken
  rw [List.length_append, load_append]
  omega

theorem length_scanStringBody_le (quote : Char) (triple raw : Bool) (cs : List Char) :
    (scanStringBody quote triple raw cs).length ≤ cs.length := by
  fun_induction scanStringBody quote triple raw cs
  all_goals simp only [Scan.length_after, Scan.length_map, List.length_cons, List.length_nil] at *
  all_goals omega

theorem length_scanString_le (raw : Bool) (cs : List Char) :
    (scanString raw cs).length ≤ cs.length := by
  unfold scanString
  split
  · exact Nat.le_refl 0
  · next quote cs =>
    have hbody (triple : Bool) (ds : List Char) := length_scanStringBody_le quote triple raw ds
    split
    · next d e rest =>
      have hlong := hbody true rest
      have hshort := hbody false (d :: e :: rest)
      simp only [List.length_cons] at hshort ⊢
      split <;> rw [Scan.length_after] <;> omega
    · have hshort := hbody false cs
      rw [Scan.length_after, List.length_cons]
      omega

theorem length_scanWord_le (cs : List Char) : (scanWord cs).length ≤ cs.length := by
  have hword : (cs.takeWhile isNamePart).length ≤ cs.length :=
    (List.takeWhile_prefix isNamePart).length_le
  unfold scanWord
  dsimp only
  split
  · next isFormatted raw _ =>
    have hstring := length_scanString_le raw (cs.drop (cs.takeWhile isNamePart).length)
    rw [List.length_drop] at hstring
    rw [Scan.length_after, Scan.length_map]
    omega
  · exact hword

/-- A formatted string starts with its prefix. -/
theorem scanLexeme_of_formatted {c : Char} {cs : List Char} {body : String}
    (h : (scanLexeme (c :: cs)).result = .ok (.formatted body)) :
    scanLexeme (c :: cs) = scanWord (c :: cs) := by
  cases scanned_of_scan h with
  | word first scan => exact scan
  | feed kind => exact Lexeme.noConfusion kind
  | symbol sign kind => exact Lexeme.noConfusion kind
  | number scan =>
    obtain ⟨n, hn⟩ | ⟨number, hx⟩ := number_of_scanNumber (scan ▸ h)
    · exact Lexeme.noConfusion hn
    · exact Lexeme.noConfusion hx
  | string scan =>
    obtain ⟨text, -, htext⟩ := Scan.exists_of_map (scan ▸ h)
    exact Lexeme.noConfusion htext

/-- A lexeme counts at most four times for each of its characters. -/
theorem load_le_of_scan {c : Char} {cs : List Char} {k : Lexeme}
    (h : (scanLexeme (c :: cs)).result = .ok k) :
    k.load ≤ 4 * min (scanLexeme (c :: cs)).length (c :: cs).length := by
  have hpos := length_scanLexeme_pos c cs
  have hone : 1 ≤ 4 * min (scanLexeme (c :: cs)).length (c :: cs).length := by
    rw [List.length_cons]
    omega
  cases k with
  | formatted body =>
    have hfits := length_scanWord_le (c :: cs)
    rw [← scanLexeme_of_formatted h] at hfits
    rw [Nat.min_eq_left hfits]
    exact Nat.mul_le_mul_left 4 (weight_le_of_scan h)
  | _ => exact hone

/-! ## What the tokens of a text can use up -/

namespace Lexer

variable {l next : Lexer} {tokens : List Token}

/-- No more load than this is still to come. -/
def loadBound (l : Lexer) : Nat :=
  4 * l.rest.length + l.indents.length + 2

theorem load_marks {ks : List Lexeme} (h : ∀ k ∈ ks, k = .indent ∨ k = .dedent) (s : Span) :
    load (ks.map (⟨·, s⟩)) = ks.length := by
  refine (load_eq_length fun t ht => ?_).trans (List.length_map _)
  obtain ⟨k, hk, rfl⟩ := List.mem_map.mp ht
  obtain rfl | rfl := h k hk <;> rfl

theorem load_closing (l : Lexer) (lineOpen : Bool) :
    load (l.closing lineOpen) ≤ l.indents.length + 2 := by
  refine Nat.le_trans (Nat.le_of_eq (load_eq_length fun t ht => ?_)) (closing_sound l lineOpen).2
  obtain ⟨k, hk, rfl⟩ := List.mem_map.mp ht
  rcases List.mem_append.mp hk with hk | hk
  · rcases List.mem_append.mp hk with hk | hk
    · cases lineOpen with
      | true =>
        obtain rfl := List.mem_singleton.mp hk
        rfl
      | false => exact absurd hk List.not_mem_nil
    · obtain rfl := List.eq_of_mem_replicate hk
      rfl
  · obtain rfl := List.mem_singleton.mp hk
    rfl

/-- What a step brings counts no more than it lowers the bound. -/
def Step.Bears (bound : Nat) : Step → Prop
  | .more tokens next => load tokens + next.loadBound ≤ bound
  | .done tokens => load tokens ≤ bound
  | .fault _ _ _ => True

theorem Step.Bears.mono {bound bound' : Nat} {s : Step} (h : s.Bears bound) (hle : bound ≤ bound') :
    s.Bears bound' := by
  cases s with
  | more tokens next => exact Nat.le_trans h hle
  | done tokens => exact Nat.le_trans h hle
  | fault tokens defect span => trivial

theorem inLine_bears {marks : List Token} {lineOpen : Bool} {s : Step}
    (h : l.InLine marks lineOpen s) : s.Bears (load marks + l.loadBound) := by
  have hstart : l.tokenStart.rest.length ≤ l.rest.length := length_rest_advance_le _ _
  cases h with
  | ended hrest =>
    have hclosing := load_closing l.tokenStart lineOpen
    show load (marks ++ _) ≤ load marks + (4 * l.rest.length + l.indents.length + 2)
    rw [load_append]
    change _ ≤ l.indents.length + 2 at hclosing
    omega
  | unreadable => trivial
  | @lexeme c cs kind hrest hscan =>
    have hload := load_le_of_scan hscan
    show load (marks ++ [_]) + (4 * (l.tokenStart.rest.drop _).length + l.indents.length + 2) ≤
      load marks + (4 * l.rest.length + l.indents.length + 2)
    rw [load_append, load_cons, load_nil, List.length_drop]
    rw [← hrest] at hload
    dsimp only
    rw [hrest] at hload hstart ⊢
    omega

theorem step_bears (l : Lexer) : l.step.Bears l.loadBound := by
  have hstep := l.oneStep
  have hstart : l.lineStart.rest.length ≤ l.rest.length :=
    Nat.le_trans (length_rest_advance_le _ _) (length_rest_advance_le _ _)
  generalize l.step = s at hstep
  cases hstep with
  | inside hline h =>
    have hline := inLine_bears h
    rwa [load_nil, Nat.zero_add] at hline
  | ended hline hrest =>
    have hclosing := load_closing l.lineStart false
    change _ ≤ l.indents.length + 2 at hclosing
    show load _ ≤ 4 * l.rest.length + l.indents.length + 2
    omega
  | @comment cs hline hrest =>
    have hpos : 0 < l.lineStart.commentText.length := by
      rw [commentText, hrest]
      exact length_takeWhile_pos cs (by decide)
    have hshort := length_rest_advance_lt l.lineStart hpos (hrest ▸ List.cons_ne_nil '#' cs)
    have hle := length_rest_advance_le (l.lineStart.advance l.lineStart.commentText.length) 1
    show 1 + (4 * _ + l.indents.length + 2) ≤ 4 * l.rest.length + l.indents.length + 2
    omega
  | misplaced => trivial
  | @line c cs marks indents s hline hrest hmark hlayout h =>
    refine (inLine_bears h).mono ?_
    rw [load_marks (layout_kinds hlayout)]
    show marks.length + (4 * l.lineStart.rest.length + indents.length + 2) ≤
      4 * l.rest.length + l.indents.length + 2
    obtain ⟨hwider, rfl, rfl⟩ | ⟨hsuffix, rfl⟩ := layout_cases hlayout
    · have hshort := l.length_rest_lineStart_lt (indentation_ne_nil (by omega))
      change _ + (_ + (l.indents.length + 1) + 2) ≤ _
      rw [List.length_singleton]
      omega
    · have hfewer := hsuffix.length_le
      rw [List.length_replicate]
      change indents.length ≤ l.indents.length at hfewer
      change l.indents.length - indents.length + _ ≤ _
      omega

theorem run_bears (l : Lexer) (h : l.run.2 = none) : load l.run.1 ≤ l.loadBound := by
  refine run_induction (P := fun l ts => load ts ≤ l.loadBound) ?done ?more l h
  case done =>
    intro l tokens hl
    have hstep := l.step_bears
    rw [hl] at hstep
    exact hstep
  case more =>
    intro l tokens next later hl ih
    have hstep := l.step_bears
    rw [hl] at hstep
    have hsum : load tokens + next.loadBound ≤ l.loadBound := hstep
    rw [load_append]
    omega

/-- Cutting a text into tokens needs no budget. -/
theorem run_inside (l : Lexer) : l.run.2 ≠ some .exhausted := by
  cases hl : l.step with
  | done tokens =>
    rw [run_done hl]
    exact fun h => by cases h
  | fault tokens defect span =>
    rw [run_fault hl]
    exact fun h => SyntaxFault.noConfusion (Option.some.inj h)
  | more tokens next =>
    have hshort := length_step hl
    rw [run_more hl]
    exact run_inside next
termination_by l.rest.length

end Lexer

theorem tokens_inside (source : String) : tokens source ≠ .error .exhausted := by
  have hrun := (Lexer.start source).run_inside
  unfold tokens readTokens
  split
  · exact fun h => by cases h
  · next heq =>
    rw [heq] at hrun
    exact fun h => hrun (congrArg some (Except.error.inj h))

/-- What the tokens of a text can use up. -/
theorem load_tokens {source : String} {ts : List Token} (h : tokens source = .ok ts) :
    load ts ≤ 4 * source.length + 2 := by
  unfold tokens at h
  split at h
  · next heq =>
    obtain rfl := Except.ok.inj h
    have hrun := (Lexer.start source).run_bears (congrArg Prod.snd heq)
    rw [show (Lexer.start source).run.1 = _ from congrArg Prod.fst heq] at hrun
    simpa [Lexer.loadBound, Lexer.start, String.length_toList] using hrun
  · cases h

end StagedScript.Syntax
