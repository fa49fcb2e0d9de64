import StagedScript.Proofs.Syntax.Legible
import StagedScript.Proofs.Syntax.Levels

/-!
# Reading printed expressions

The lexemes of a legible expression are read as its plain form.  Each form of
expression is read at the level of its own strength; from there the levels
below follow, and with parentheses those above.
-/

namespace StagedScript.Syntax

open Text StagedScript.Syntax.Parser

/-- What a lexeme counts for the depth of nesting: a formatted string as many times as its body is
long. -/
def Lexeme.weight : Lexeme → Nat
  | .formatted body => body.length + 1
  | _ => 1

def weight (ks : List Lexeme) : Nat :=
  (ks.map Lexeme.weight).sum

@[simp]
theorem weight_nil : weight [] = 0 := rfl

@[simp]
theorem weight_cons (k : Lexeme) (ks : List Lexeme) : weight (k :: ks) = k.weight + weight ks := by
  simp [weight]

@[simp]
theorem weight_append (ks ks' : List Lexeme) : weight (ks ++ ks') = weight ks + weight ks' := by
  simp [weight]

theorem Lexeme.weight_pos (k : Lexeme) : 0 < k.weight := by
  unfold Lexeme.weight
  split <;> omega

theorem weight_bracketed (opening closing : Symbol) (ks : List Lexeme) :
    weight (bracketed opening closing ks) = weight ks + 2 := by
  simp [bracketed, Lexeme.weight]
  omega

theorem weight_le_preceded (sign : Symbol) {ks : List Lexeme} {kss : List (List Lexeme)}
    (h : ks ∈ kss) : weight ks < weight (preceded sign kss) := by
  induction kss with
  | nil => exact absurd h List.not_mem_nil
  | cons ks' kss ih =>
    simp only [preceded, List.flatMap_cons, List.cons_append, weight_cons, weight_append,
      Lexeme.weight] at ih ⊢
    rcases List.mem_cons.mp h with rfl | h
    · omega
    · have := ih h
      omega

theorem weight_le_separated {ks : List Lexeme} {kss : List (List Lexeme)} (h : ks ∈ kss) :
    weight ks ≤ weight (separated kss) := by
  cases kss with
  | nil => exact absurd h List.not_mem_nil
  | cons ks' kss =>
    rw [separated_cons, weight_append]
    rcases List.mem_cons.mp h with rfl | h
    · omega
    · have := weight_le_preceded .comma h
      omega

/-! ## Readable expressions -/

/-- An expression is what reading the text of another one yields. -/
def Rereads (e e' : Expr) : Prop :=
  e'.bare = e.plain

/-- The parser of every level reads the expression from its lexemes. -/
structure Readable (e : Expr) : Prop where
  takes : ∀ {l d : Nat}, 0 < l → l ≤ Strength.atom → weight (e.lexemes l) ≤ d →
    Takes (level (exprParsers d) l) (e.lexemes l) (Lexeme.Below l) (Rereads e)
  loops : ∀ {l d : Nat}, l ∈ loopLevels → weight (e.lexemes l) ≤ d →
    Loops (level (exprParsers d) (l + 1)) (extension (exprParsers d) l) (e.lexemes l)
      (Lexeme.Below (l + 1)) (Rereads e)

section Levels

variable {e : Expr} {l : Nat}

theorem Expr.lexemes_of_le (h : l ≤ e.strength) : e.lexemes l = e.lexemes e.strength := by
  rw [Expr.lexemes.eq_def, Expr.lexemes.eq_def e.strength]
  dsimp only
  rw [if_neg (Nat.not_lt.mpr h), if_neg (Nat.lt_irrefl _)]

theorem Expr.lexemes_of_lt (h : e.strength < l) :
    e.lexemes l = bracketed .leftParen .rightParen (e.lexemes e.strength) := by
  rw [Expr.lexemes.eq_def, Expr.lexemes.eq_def e.strength]
  dsimp only
  rw [if_pos h, if_neg (Nat.lt_irrefl _)]

theorem Expr.strength_pos (e : Expr) : 0 < e.strength := by
  unfold Expr.strength
  split
  all_goals try decide
  · next op _ _ _ => cases op <;> decide
  · split <;> decide
  · split <;> decide

theorem Expr.strength_le (e : Expr) : e.strength ≤ Strength.atom := by
  unfold Expr.strength
  split
  all_goals try decide
  · next op _ _ _ => cases op <;> decide
  · split <;> decide
  · split <;> decide

/-- What the parser of a level takes, the parsers of all levels below take too. -/
theorem takes_of_le {p : ExprParsers} {s : Nat} {ks : List Lexeme} {Q : Expr → Prop}
    (hpos : 0 < l) (hle : l ≤ s) (hs : s ≤ Strength.atom) (hopens : OpensWith s ks)
    (h : Takes (level p s) ks (Lexeme.Below s) Q) : Takes (level p l) ks (Lexeme.Below l) Q := by
  obtain ⟨m, rfl⟩ := Nat.exists_eq_add_of_le hle
  induction m with
  | zero => exact h
  | succ m ih =>
    have hlt : l + m < 10 := hs
    have hbelow := takes_below (l := l + m) (by omega) hlt hopens h
    have hopens' := hopens.append (Nat.le_succ (l + m)) []
    rw [List.append_nil] at hopens'
    exact ih (by omega) (Nat.le_of_lt hlt) hopens' hbelow

/-- An expression in parentheses is an atom. -/
theorem takes_parenthesized {d : Nat} {ks : List Lexeme} {Q : Expr → Prop}
    (hopens : OpensWith 1 ks)
    (h : Takes (level (exprParsers d) 1) ks (Lexeme.Below 1) Q) :
    Takes (atom (exprParsers (d + 1))) (bracketed .leftParen .rightParen ks) (fun _ => True) Q := by
  intro n ts rest hts hn hrest
  obtain ⟨t, us, rfl, ht, hus⟩ := cons_tokens hts
  obtain ⟨vs, ws, rfl, hvs, hws⟩ := split_tokens hus
  obtain ⟨w, ws, rfl, hw, hws'⟩ := cons_tokens hws
  obtain rfl : ws = [] := List.map_eq_nil_iff.mp hws'
  rw [List.length_cons, List.length_append] at hn
  obtain ⟨k, ks', rfl, hk⟩ := hopens
  obtain ⟨v, vs, rfl, hv, hvs'⟩ := cons_tokens hvs
  have hnot : v.kind ≠ .symbol .rightParen := by
    intro heq
    have hstarts := hk.starts
    rw [← hv, heq] at hstarts
    exact absurd hstarts (by decide)
  have hlength : (v :: vs).length < n := by
    simp only [List.length_cons] at hn ⊢
    omega
  obtain ⟨a, hread, ha⟩ := h n (v :: vs) (w :: rest) hvs hlength (stops_cons hw (by decide))
  refine ⟨a, ?_, ha⟩
  rw [List.cons_append, List.append_assoc]
  refine Reads.bind Reads.peekToken ?_
  obtain ⟨kind, span⟩ := t
  obtain rfl : kind = .symbol .leftParen := ht
  refine Reads.bind (Reads.advance (by simp)) ?_
  refine Reads.bind (Reads.accept_false hnot) ?_
  refine Reads.bind hread ?_
  exact Reads.bind (Reads.accept_true hw hrest.ne_nil) (Reads.pure a)

/-- The lexemes of an expression that are read at its own level are read at every level. -/
theorem Readable.of_own
    (htakes : ∀ {d : Nat}, weight (e.lexemes e.strength) ≤ d →
      Takes (level (exprParsers d) e.strength) (e.lexemes e.strength) (Lexeme.Below e.strength)
        (Rereads e))
    (hloops : e.strength ∈ loopLevels → ∀ {d : Nat}, weight (e.lexemes e.strength) ≤ d →
      Loops (level (exprParsers d) (e.strength + 1)) (extension (exprParsers d) e.strength)
        (e.lexemes e.strength) (Lexeme.Below (e.strength + 1)) (Rereads e)) :
    Readable e := by
  have hopens := opensWith_lexemes e.strength e
  -- Below its own level an expression is read without parentheses, above it with them.
  have hlow {l d : Nat} (hpos : 0 < l) (hle : l ≤ e.strength)
      (hd : weight (e.lexemes e.strength) ≤ d) :
      Takes (level (exprParsers d) l) (e.lexemes e.strength) (Lexeme.Below l) (Rereads e) :=
    takes_of_le hpos hle e.strength_le hopens (htakes hd)
  have hparens {d : Nat} (hd : weight (bracketed .leftParen .rightParen (e.lexemes e.strength)) ≤ d) :
      Takes (atom (exprParsers d)) (bracketed .leftParen .rightParen (e.lexemes e.strength))
        (fun _ => True) (Rereads e) := by
    rw [weight_bracketed] at hd
    obtain ⟨d, rfl⟩ := Nat.exists_eq_add_one_of_ne_zero (show d ≠ 0 by omega)
    have hopens' := hopens.append e.strength_pos []
    rw [List.append_nil] at hopens'
    exact takes_parenthesized hopens' (hlow Nat.one_pos e.strength_pos (by omega))
  have hloopsParens {d : Nat}
      (hd : weight (bracketed .leftParen .rightParen (e.lexemes e.strength)) ≤ d) :
      Loops (level (exprParsers d) (Strength.atom + 1)) (extension (exprParsers d) Strength.atom)
        (bracketed .leftParen .rightParen (e.lexemes e.strength))
        (Lexeme.Below (Strength.atom + 1)) (Rereads e) :=
    ((hparens hd).mono (fun _ _ => trivial) fun _ h => h).loops
  have htakesAll {l d : Nat} (hpos : 0 < l) (hle : l ≤ Strength.atom)
      (hd : weight (e.lexemes l) ≤ d) :
      Takes (level (exprParsers d) l) (e.lexemes l) (Lexeme.Below l) (Rereads e) := by
    by_cases hl : l ≤ e.strength
    · rw [Expr.lexemes_of_le hl] at hd ⊢
      exact hlow hpos hl hd
    · rw [Expr.lexemes_of_lt (Nat.lt_of_not_le hl)] at hd ⊢
      exact takes_of_le hpos hle (Nat.le_refl _) (opensWith_paren _ _)
        ((hloopsParens hd).takes_level (by decide))
  refine ⟨htakesAll, ?_⟩
  intro l d hl hd
  -- A loop of another level takes the expression as its first operand.
  by_cases heq : l = e.strength
  · subst heq
    exact hloops hl hd
  · have hatom : l ≤ Strength.atom := by
      revert hl
      simp only [loopLevels, List.mem_cons, List.not_mem_nil, or_false]
      rintro (rfl | rfl | rfl | rfl | rfl) <;> decide
    by_cases hlast : l = Strength.atom
    · subst hlast
      have hlt := Nat.lt_of_le_of_ne e.strength_le (Ne.symm heq)
      rw [Expr.lexemes_of_lt hlt] at hd ⊢
      exact hloopsParens hd
    · have hsame : e.lexemes l = e.lexemes (l + 1) := by
        by_cases hlt : l < e.strength
        · rw [Expr.lexemes_of_le (Nat.le_of_lt hlt), Expr.lexemes_of_le hlt]
        · have hgt : e.strength < l := by omega
          rw [Expr.lexemes_of_lt hgt, Expr.lexemes_of_lt (Nat.lt_succ_of_lt hgt)]
      rw [hsame] at hd ⊢
      exact (htakesAll (Nat.succ_pos l) (by omega) hd).loops

theorem Readable.of_takes {s : Nat} (hs : e.strength = s) (hnot : s ∉ loopLevels)
    (h : ∀ {d : Nat}, weight (e.lexemes s) ≤ d →
      Takes (level (exprParsers d) s) (e.lexemes s) (Lexeme.Below s) (Rereads e)) :
    Readable e := by
  subst hs
  exact .of_own h fun hl => absurd hl hnot

theorem Readable.of_loops (hs : e.strength ∈ loopLevels)
    (h : ∀ {d : Nat}, weight (e.lexemes e.strength) ≤ d →
      Loops (level (exprParsers d) (e.strength + 1)) (extension (exprParsers d) e.strength)
        (e.lexemes e.strength) (Lexeme.Below (e.strength + 1)) (Rereads e)) : Readable e :=
  .of_own (fun hd => (h hd).takes_level hs) fun _ => h

/-- An expression that is printed like another one and has the same plain form. -/
theorem Readable.congr {e' : Expr} (h : Readable e') (hlexemes : ∀ l, e.lexemes l = e'.lexemes l)
    (hplain : e'.plain = e.plain) : Readable e := by
  have hrereads : ∀ a, Rereads e' a → Rereads e a := fun a ha => ha.trans hplain
  constructor
  · intro l d hpos hl hd
    rw [hlexemes] at hd ⊢
    exact (h.takes hpos hl hd).mono (fun _ hk => hk) hrereads
  · intro l d hl hd n ts rest hts hn hrest
    rw [hlexemes] at hd hts
    obtain ⟨a, m, hrun, hm, ha⟩ := h.loops hl hd n ts rest hts hn hrest
    exact ⟨a, m, hrun, hm, hrereads a ha⟩

end Levels

/-! ## Atoms -/

/-- An atom of which the first lexeme tells what it is. -/
theorem Readable.of_atom {e : Expr} (hs : e.strength = Strength.atom)
    (h : ∀ {d : Nat}, weight (e.lexemes Strength.atom) ≤ d →
      Takes (atom (exprParsers d)) (e.lexemes Strength.atom)
        (Lexeme.Below (Strength.atom + 1)) (Rereads e)) : Readable e := by
  apply Readable.of_loops
  · rw [hs]
    decide
  · rw [hs]
    intro d hd
    exact (h hd).loops

/-- An atom that is a single lexeme. -/
theorem Readable.of_lexeme {e : Expr} {k : Lexeme} (hs : e.strength = Strength.atom)
    (hk : e.lexemes Strength.atom = [k])
    (h : ∀ {d n : Nat} {span : Span} {rest : List Token}, k.weight ≤ d →
      Stops (Lexeme.Below (Strength.atom + 1)) rest → 1 < n →
      ∃ a, Reads (atom (exprParsers d)) n (⟨k, span⟩ :: rest) a rest ∧ Rereads e a) :
    Readable e := by
  apply Readable.of_atom hs
  intro d hd n ts rest hts hn hrest
  rw [hk] at hts hd
  obtain ⟨⟨kind, span⟩, us, rfl, ht, hus⟩ := cons_tokens hts
  obtain rfl : us = [] := List.map_eq_nil_iff.mp hus
  obtain rfl : kind = k := ht
  exact h (by simpa using hd) hrest hn

theorem readable_name (id : String) (span : Span) : Readable (.name id span) := by
  apply Readable.of_lexeme rfl rfl
  intro d n span' rest hd hrest hn
  refine ⟨.name id span', ?_, rfl⟩
  exact Reads.bind Reads.peekToken (Reads.bind (Reads.advance hrest.ne_nil) (Reads.pure _))

def ReadFrom (e : Expr) (k : Lexeme) : Prop :=
  ∀ (p : ExprParsers) (n : Nat) (span : Span) (rest : List Token),
    Stops (Lexeme.Below (Strength.atom + 1)) rest → 1 < n →
      ∃ a, Reads (atom p) n (⟨k, span⟩ :: rest) a rest ∧ Rereads e a

theorem ReadFrom.readable {e : Expr} {k : Lexeme} (h : ReadFrom e k)
    (hs : e.strength = Strength.atom) (hk : e.lexemes Strength.atom = [k]) : Readable e :=
  .of_lexeme hs hk fun _ hrest hn => h _ _ _ _ hrest hn

theorem readFrom_none (span : Span) : ReadFrom (.constant .none span) (.keyword .noneKw) := by
  intro p n span' rest hrest hn
  refine ⟨.constant .none span', ?_, rfl⟩
  exact Reads.bind Reads.peekToken (Reads.bind (Reads.advance hrest.ne_nil) (Reads.pure _))

theorem readFrom_true (span : Span) :
    ReadFrom (.constant (.bool true) span) (.keyword .trueKw) := by
  intro p n span' rest hrest hn
  refine ⟨.constant (.bool true) span', ?_, rfl⟩
  exact Reads.bind Reads.peekToken (Reads.bind (Reads.advance hrest.ne_nil) (Reads.pure _))

theorem readFrom_false (span : Span) :
    ReadFrom (.constant (.bool false) span) (.keyword .falseKw) := by
  intro p n span' rest hrest hn
  refine ⟨.constant (.bool false) span', ?_, rfl⟩
  exact Reads.bind Reads.peekToken (Reads.bind (Reads.advance hrest.ne_nil) (Reads.pure _))

theorem readFrom_string (s : String) (span : Span) :
    ReadFrom (.constant (.string s) span) (.string s) := by
  intro p n span' rest hrest hn
  refine ⟨.constant (.string (s ++ "")) span', ?_, ?_⟩
  · obtain ⟨n, rfl⟩ := Nat.exists_eq_add_one_of_ne_zero (show n ≠ 0 by omega)
    obtain ⟨t, rest, rfl, ht⟩ := hrest
    refine Reads.bind Reads.peekToken (Reads.bind (Reads.advance (by simp)) ?_)
    refine Reads.bind (Reads.bounded (a := "") (Reads.bind Reads.peek ?_)) (Reads.pure _)
    split
    · next text heq =>
      rw [heq] at ht
      exact absurd ht (by simp [Lexeme.Below, Lexeme.tightness])
    · exact Reads.pure ""
  · simp [Rereads, Expr.strip, Constant.plain]

theorem readFrom_integer {m : Int64} (hm : ¬ m.toInt < 0) (span : Span) :
    ReadFrom (.constant (.int m) span) (.integer m.toInt.natAbs) := by
  have hnot : ¬ m < 0 := fun h => hm ((Int64.toInt_neg_iff m).mpr h)
  have hlt := Int64.natAbs_lt_of_nonneg hm
  have hvalue : Int64.ofNat m.toInt.natAbs = m := by
    rw [← Int64.toInt_inj, Int64.toInt_ofNat_of_lt (by simpa using hlt)]
    omega
  intro p n span' rest hrest hn
  refine ⟨.constant (.int (Int64.ofNat m.toInt.natAbs)) span', ?_, ?_⟩
  · refine Reads.bind Reads.peekToken (Reads.bind (Reads.advance hrest.ne_nil) ?_)
    refine Reads.bind (a := .int (Int64.ofNat m.toInt.natAbs)) ?_ (Reads.pure _)
    rw [integerLiteral, if_pos hlt]
    exact Reads.pure _
  · simp [Rereads, Expr.strip, Constant.plain, hnot, hvalue, Expr.literal]

theorem readFrom_float {x : Float} {b : Decimal.Binary} (hx : Decimal.decode x = .finite b)
    (hb : b.negative = false) (span : Span) : ReadFrom (.constant (.float x) span) (.float x) := by
  intro p n span' rest hrest hn
  refine ⟨.constant (.float x) span', ?_, ?_⟩
  · exact Reads.bind Reads.peekToken (Reads.bind (Reads.advance hrest.ne_nil) (Reads.pure _))
  · simp [Rereads, Expr.strip, Constant.plain, hx, hb, Expr.literal]

theorem readable_none (span : Span) : Readable (.constant .none span) :=
  (readFrom_none span).readable rfl rfl

theorem readable_bool (b : Bool) (span : Span) : Readable (.constant (.bool b) span) := by
  cases b with
  | true => exact (readFrom_true span).readable rfl rfl
  | false => exact (readFrom_false span).readable rfl rfl

theorem readable_string (s : String) (span : Span) : Readable (.constant (.string s) span) :=
  (readFrom_string s span).readable rfl rfl

theorem readable_integer {m : Int64} (hm : ¬ m.toInt < 0) (span : Span) :
    Readable (.constant (.int m) span) := by
  have hnot : ¬ m < 0 := fun h => hm ((Int64.toInt_neg_iff m).mpr h)
  have hs : (Expr.constant (.int m) span).strength = Strength.atom := by
    simp [Expr.strength, hnot]
  apply (readFrom_integer hm span).readable hs
  simp [Expr.lexemes, hs, Constant.lexemes, hm, signLexemes]

theorem readable_float {x : Float} {b : Decimal.Binary} (hx : Decimal.decode x = .finite b)
    (hb : b.negative = false) (hback : Decimal.ReadsBack x) (span : Span) :
    Readable (.constant (.float x) span) := by
  have hs : (Expr.constant (.float x) span).strength = Strength.atom := by
    simp [Expr.strength, Decimal.isNegative, hx, hb]
  apply (readFrom_float hx hb span).readable hs
  simp [Expr.lexemes, hs, Constant.lexemes, hx, hb, signLexemes, hback.reread_eq hx]

theorem readable_formatted {parts : List FormattedPart} (h : PartsLegible parts) (span : Span) :
    Readable (.formatted parts span) := by
  apply Readable.of_lexeme rfl rfl
  intro d n span' rest hd hrest hn
  obtain ⟨parts', hread, hparts⟩ := h.read d span' (Nat.le_of_lt hd)
  refine ⟨.formatted parts' span', ?_, ?_⟩
  · refine Reads.bind Reads.peekToken (Reads.bind (Reads.advance hrest.ne_nil) ?_)
    exact Reads.bind (Reads.lift hread) (Reads.pure _)
  · simp [Rereads, Expr.strip, hparts]

/-! ## Items -/

/-- What the parser of nested expressions takes. -/
theorem Readable.takes_expr {e : Expr} (h : Readable e) {d : Nat}
    (hd : weight (e.lexemes 0) ≤ d) :
    Takes (exprParsers (d + 1)).expr (e.lexemes 0) (Lexeme.Below 1) (Rereads e) := by
  have hsame : e.lexemes 0 = e.lexemes 1 := by
    rw [Expr.lexemes_of_le (Nat.zero_le _), Expr.lexemes_of_le e.strength_pos]
  rw [hsame] at hd ⊢
  exact h.takes Nat.one_pos (by decide) hd

theorem readable_all {items : List Expr} (h : ∀ e ∈ items, Readable e) {d : Nat}
    (hd : ∀ ks ∈ itemLexemes items, weight ks ≤ d) {starts : Lexeme → Prop}
    (hstarts : ∀ k, startsExpr k = true → starts k) :
    TakesAll (exprParsers (d + 1)).expr starts (Lexeme.Below 1) Rereads items
      (itemLexemes items) := by
  induction items with
  | nil => exact .nil
  | cons item items ih =>
    obtain ⟨k, hk, hkstarts⟩ := (opensWith_lexemes 0 item).starts
    refine .cons ⟨?_, k, hk, hstarts k hkstarts⟩ ?_
    · exact (h item List.mem_cons_self).takes_expr (hd _ List.mem_cons_self)
    · exact ih (fun e he => h e (List.mem_cons_of_mem _ he))
        fun ks hks => hd ks (List.mem_cons_of_mem _ hks)

theorem stripItems_of_rereads {items items' : List Expr} (h : List.Forall₂ Rereads items items') :
    stripItems .literal items' = stripItems Constant.plain items := by
  induction h with
  | nil => rfl
  | cons hitem _ ih =>
    rw [stripItems, stripItems, ih]
    exact congrArg (· :: _) hitem

/-- The symbol does not start an expression. -/
theorem ne_of_startsExpr {sign : Symbol} (hsign : startsExpr (.symbol sign) = false) (k : Lexeme)
    (hk : startsExpr k = true) : k ≠ .symbol sign := by
  rintro rfl
  rw [hsign] at hk
  exact Bool.noConfusion hk

/-- Expressions up to a closing bracket. -/
theorem takes_items {items : List Expr} (h : ∀ e ∈ items, Readable e) {d : Nat} {sign : Symbol}
    (hsign : sign = .rightParen ∨ sign = .rightBracket)
    (hd : weight (separated (itemLexemes items)) ≤ d) :
    Takes (itemsUntil sign (exprParsers (d + 1)).expr)
      (separated (itemLexemes items) ++ [.symbol sign]) (fun _ => True)
      (List.Forall₂ Rereads items) := by
  have hweights : ∀ ks ∈ itemLexemes items, weight ks ≤ d :=
    fun ks hks => Nat.le_trans (weight_le_separated hks) hd
  have hstarts : startsExpr (.symbol sign) = false := by rcases hsign with rfl | rfl <;> decide
  have hstop : Lexeme.Below 1 (.symbol sign) := by rcases hsign with rfl | rfl <;> decide
  have hcomma : sign ≠ .comma := by rcases hsign with rfl | rfl <;> decide
  exact takes_itemsUntil _ (by decide) hstop
    (readable_all h hweights (ne_of_startsExpr hstarts)) hcomma

theorem length_itemLexemes (items : List Expr) : (itemLexemes items).length = items.length := by
  induction items with
  | nil => rfl
  | cons item items ih => rw [itemLexemes, List.length_cons, ih, List.length_cons]

/-- The expressions after the first one of a list. -/
theorem takes_others {items : List Expr} (h : ∀ e ∈ items, Readable e) {d : Nat}
    (hd : ∀ ks ∈ itemLexemes items, weight ks ≤ d) {starts : Lexeme → Bool}
    (hstarts : ∀ k, startsExpr k = true → starts k = true) :
    Takes (bounded (itemsAfter .comma starts (exprParsers (d + 1)).expr))
      (preceded .comma (itemLexemes items)) (fun k => k.Below 1 ∧ k ≠ .symbol .comma)
      (List.Forall₂ Rereads items) := by
  intro n ts rest hts hn hrest
  have hlength : items.length < n := by
    have hle := length_le_preceded .comma (itemLexemes items)
    rw [← hts, List.length_map, length_itemLexemes] at hle
    omega
  exact takes_itemsAfter (by decide) (readable_all h hd hstarts) n hlength n ts rest hts hn hrest

/-- Several expressions with commas between them. -/
theorem takes_exprListOf {first : Expr} {others : List Expr} (hne : others ≠ [])
    (h : ∀ e ∈ first :: others, Readable e) {d : Nat}
    (hd : weight (separated (itemLexemes (first :: others))) ≤ d) :
    Takes (exprListOf (exprParsers (d + 1)).expr) (separated (itemLexemes (first :: others)))
      (fun k => k.Below 1 ∧ k ≠ .symbol .comma) (fun e => ∃ items' span,
        e = .tuple items' span ∧ List.Forall₂ Rereads (first :: others) items') := by
  have hweights : ∀ ks ∈ itemLexemes (first :: others), weight ks ≤ d :=
    fun ks hks => Nat.le_trans (weight_le_separated hks) hd
  intro n ts rest hts hn hrest
  rw [itemLexemes, separated_cons] at hts
  obtain ⟨us, vs, rfl, hus, hvs⟩ := split_tokens hts
  rw [List.length_append] at hn
  obtain ⟨v, hv, hstop⟩ : ∃ v ∈ vs.head?, v.kind = .symbol .comma := by
    obtain ⟨second, others, rfl⟩ := List.exists_cons_of_ne_nil hne
    obtain ⟨v, vs, rfl, hv, -⟩ := cons_tokens hvs
    exact ⟨v, rfl, hv⟩
  obtain ⟨vs, rfl⟩ := List.head?_eq_some_iff.mp hv
  obtain ⟨a, hread, ha⟩ := (h first List.mem_cons_self).takes_expr
    (hweights _ List.mem_cons_self) n us (v :: vs ++ rest) hus (by omega)
    (stops_cons hstop (by decide))
  obtain ⟨as, hreads, has⟩ := takes_others
    (fun e he => h e (List.mem_cons_of_mem _ he))
    (fun ks hks => hweights ks (List.mem_cons_of_mem _ hks))
    (fun k (hk : startsExpr k = true) => hk) n (v :: vs) rest hvs (by omega) hrest
  refine ⟨.tuple (a :: as) a.span, ?_, _, _, rfl, .cons ha has⟩
  rw [List.append_assoc]
  refine Reads.bind hread (Reads.bind (Reads.isAt _) ?_)
  rw [decide_eq_true hstop]
  exact Reads.bind hreads (Reads.pure _)

theorem takes_exprListOf_single {e : Expr} (h : Readable e) {d : Nat}
    (hd : weight (e.lexemes 0) ≤ d) :
    Takes (exprListOf (exprParsers (d + 1)).expr) (e.lexemes 0)
      (fun k => k.Below 1 ∧ k ≠ .symbol .comma) (Rereads e) := by
  intro n ts rest hts hn hrest
  obtain ⟨a, hread, ha⟩ := h.takes_expr hd n ts rest hts hn (hrest.mono fun _ hk => hk.1)
  obtain ⟨t, rest, rfl, -, ht⟩ := hrest
  refine ⟨a, ?_, ha⟩
  refine Reads.bind hread (Reads.bind (Reads.isAt _) ?_)
  rw [decide_eq_false ht]
  exact Reads.pure a

/-! ## Brackets -/

/-- The first token of an atom in brackets is its opening bracket. -/
theorem opening_token {opening : Symbol} {ks : List Lexeme} {ts : List Token}
    (h : ts.map Token.kind = .symbol opening :: ks) :
    ∃ span us, ts = ⟨.symbol opening, span⟩ :: us ∧ us.map Token.kind = ks := by
  obtain ⟨⟨kind, span⟩, us, rfl, ht, hus⟩ := cons_tokens h
  obtain rfl : kind = .symbol opening := ht
  exact ⟨span, us, rfl, hus⟩

theorem append_ne_nil {ts rest : List Token} {stop : Lexeme → Prop} (h : Stops stop rest) :
    ts ++ rest ≠ [] :=
  fun heq => h.ne_nil (List.append_eq_nil_iff.mp heq).2

/-- What follows the first item of a tuple: a comma if there is nothing else. -/
def tupleTail : List (List Lexeme) → List Lexeme
  | [] => [.symbol .comma]
  | kss => preceded .comma kss

theorem tupleLexemes_cons (ks : List Lexeme) (kss : List (List Lexeme)) :
    tupleLexemes (ks :: kss) = bracketed .leftParen .rightParen (ks ++ tupleTail kss) := by
  cases kss with
  | nil => rfl
  | cons ks' kss => rw [tupleLexemes, separated_cons, tupleTail] <;> simp

theorem tupleTail_head (kss : List (List Lexeme)) :
    ∃ ks, tupleTail kss = .symbol .comma :: ks := by
  cases kss with
  | nil => exact ⟨[], rfl⟩
  | cons ks kss => exact ⟨ks ++ preceded .comma kss, rfl⟩

theorem weight_le_tupleTail {ks : List Lexeme} {kss : List (List Lexeme)} (h : ks ∈ kss) :
    weight ks ≤ weight (tupleTail kss) := by
  cases kss with
  | nil => exact absurd h List.not_mem_nil
  | cons ks' kss => exact Nat.le_of_lt (weight_le_preceded .comma h)

theorem takes_tupleTail {items : List Expr} (h : ∀ e ∈ items, Readable e) {d : Nat}
    (hd : weight (tupleTail (itemLexemes items)) ≤ d) :
    Takes (bounded (itemsAfter .comma (· ≠ .symbol .rightParen) (exprParsers (d + 1)).expr))
      (tupleTail (itemLexemes items)) (· = .symbol .rightParen) (List.Forall₂ Rereads items) := by
  cases items with
  | nil =>
    intro n ts rest hts hn hrest
    obtain ⟨n, rfl⟩ := Nat.exists_eq_add_one_of_ne_zero (show n ≠ 0 by omega)
    have htrail : Takes (itemsAfter .comma (fun k => decide (k ≠ .symbol .rightParen))
        (exprParsers (d + 1)).expr (n + 1)) [.symbol .comma]
        (fun k => decide (k ≠ .symbol .rightParen) = false) (· = []) := takes_itemsAfter_trail n
    obtain ⟨as, hread, rfl⟩ := htrail (n + 1) ts rest hts hn
      (hrest.mono fun k hk => by simp [hk])
    exact ⟨[], hread, .nil⟩
  | cons first others =>
    have hweights : ∀ ks ∈ itemLexemes (first :: others), weight ks ≤ d :=
      fun ks hks => Nat.le_trans (weight_le_tupleTail hks) hd
    have hparen : startsExpr (.symbol .rightParen) = false := by decide
    have hstarts : ∀ k, startsExpr k = true → decide (k ≠ .symbol .rightParen) = true :=
      fun k hk => decide_eq_true (ne_of_startsExpr hparen k hk)
    exact (takes_others h hweights hstarts).mono (by rintro k rfl; decide) fun _ ha => ha

theorem readable_tuple {items : List Expr} (h : ∀ e ∈ items, Readable e) (span : Span) :
    Readable (.tuple items span) := by
  have hlexemes : (Expr.tuple items span).lexemes Strength.atom =
      tupleLexemes (itemLexemes items) := rfl
  apply Readable.of_atom rfl
  intro d hd n ts rest hts hn hrest
  rw [hlexemes] at hts hd
  cases items with
  | nil =>
    obtain ⟨span', us, rfl, hus⟩ := opening_token hts
    obtain ⟨v, vs, rfl, hv, hvs⟩ := cons_tokens hus
    obtain rfl : vs = [] := List.map_eq_nil_iff.mp hvs
    refine ⟨.tuple [] span', ?_, rfl⟩
    refine Reads.bind Reads.peekToken (Reads.bind (Reads.advance (by simp)) ?_)
    exact Reads.bind (Reads.accept_true hv hrest.ne_nil) (Reads.pure _)
  | cons first others =>
    rw [itemLexemes, tupleLexemes_cons] at hts hd
    rw [weight_bracketed, weight_append] at hd
    obtain ⟨d, rfl⟩ := Nat.exists_eq_add_one_of_ne_zero (show d ≠ 0 by omega)
    obtain ⟨span', us, rfl, hus⟩ := opening_token hts
    obtain ⟨inner, ws, rfl, hinner, hws⟩ := split_tokens hus
    obtain ⟨w, ws, rfl, hw, hws'⟩ := cons_tokens hws
    obtain rfl : ws = [] := List.map_eq_nil_iff.mp hws'
    obtain ⟨vs, us, rfl, hvs, hus'⟩ := split_tokens hinner
    simp only [List.length_cons, List.length_append] at hn
    obtain ⟨ks, hks⟩ := tupleTail_head (itemLexemes others)
    obtain ⟨u, us, rfl, hu, -⟩ := cons_tokens (hks ▸ hus')
    obtain ⟨k, ks', hfirst, hk⟩ := opensWith_lexemes 0 first
    obtain ⟨v, vs, rfl, hv, -⟩ := cons_tokens (hfirst ▸ hvs)
    have hvnot : v.kind ≠ .symbol .rightParen := hv ▸ ne_of_startsExpr (by decide) k hk.starts
    have hunot : u.kind ≠ .symbol .rightParen := by
      rw [hu]
      decide
    obtain ⟨a, hread, ha⟩ := (h first List.mem_cons_self).takes_expr (d := d) (by omega) n
      (v :: vs) (u :: us ++ w :: rest) hvs (by omega) (stops_cons hu (by decide))
    obtain ⟨as, hreads, has⟩ := takes_tupleTail (d := d)
      (fun e he => h e (List.mem_cons_of_mem _ he)) (by omega) n (u :: us) (w :: rest) hus'
      (by omega) (stops_cons hw rfl)
    refine ⟨.tuple (a :: as) span', ?_, ?_⟩
    · have htokens : ⟨.symbol .leftParen, span'⟩ :: (v :: vs ++ u :: us ++ [w]) ++ rest =
          ⟨.symbol .leftParen, span'⟩ :: (v :: vs ++ (u :: us ++ w :: rest)) := by simp
      rw [htokens]
      refine Reads.bind Reads.peekToken (Reads.bind (Reads.advance (by simp)) ?_)
      refine Reads.bind (Reads.accept_false hvnot) (Reads.bind hread ?_)
      refine Reads.bind (Reads.accept_false hunot) (Reads.bind hreads ?_)
      exact Reads.bind (Reads.expectSymbol hw hrest.ne_nil) (Reads.pure _)
    · have hitems := stripItems_of_rereads (List.Forall₂.cons ha has)
      simp only [Rereads, Expr.strip, hitems]

theorem readable_list {items : List Expr} (h : ∀ e ∈ items, Readable e) (span : Span) :
    Readable (.list items span) := by
  have hlexemes : (Expr.list items span).lexemes Strength.atom =
      bracketed .leftBracket .rightBracket (separated (itemLexemes items)) := rfl
  apply Readable.of_atom rfl
  intro d hd n ts rest hts hn hrest
  rw [hlexemes] at hts hd
  rw [weight_bracketed] at hd
  obtain ⟨d, rfl⟩ := Nat.exists_eq_add_one_of_ne_zero (show d ≠ 0 by omega)
  obtain ⟨span', us, rfl, hus⟩ := opening_token hts
  rw [List.length_cons] at hn
  obtain ⟨as, hreads, has⟩ := takes_items (d := d) h (.inr rfl) (by omega) n us rest hus (by omega)
    (hrest.mono fun _ _ => trivial)
  refine ⟨.list as span', ?_, ?_⟩
  · refine Reads.bind Reads.peekToken (Reads.bind (Reads.advance (append_ne_nil hrest)) ?_)
    exact Reads.bind hreads (Reads.pure _)
  · simp only [Rereads, Expr.strip, stripItems_of_rereads has]

/-- An entry is what reading the text of another one yields. -/
inductive EntryRereads : Entry → Entry → Prop
  | pair {key key' value value' : Expr} (hkey : Rereads key key') (hvalue : Rereads value value') :
    EntryRereads (.pair key value) (.pair key' value')

theorem stripEntries_of_rereads {entries entries' : List Entry}
    (h : List.Forall₂ EntryRereads entries entries') :
    stripEntries .literal entries' = stripEntries Constant.plain entries := by
  induction h with
  | nil => rfl
  | cons hentry _ ih =>
    obtain ⟨hkey, hvalue⟩ := hentry
    rw [stripEntries, stripEntries, ih]
    exact congrArg₂ (fun key value => Entry.pair key value :: _) hkey hvalue

def EntryReadable : Entry → Prop
  | .pair key value => Readable key ∧ Readable value

theorem takes_dictEntry {key value : Expr} (hkey : Readable key) (hvalue : Readable value)
    {d : Nat} (hd : weight (key.lexemes 0 ++ .symbol .colon :: value.lexemes 0) ≤ d) :
    Takes (dictEntry (exprParsers (d + 1)))
      (key.lexemes 0 ++ .symbol .colon :: value.lexemes 0) (Lexeme.Below 1)
      (EntryRereads (.pair key value)) := by
  rw [weight_append, weight_cons] at hd
  intro n ts rest hts hn hrest
  obtain ⟨us, vs, rfl, hus, hvs⟩ := split_tokens hts
  obtain ⟨v, vs, rfl, hv, hvs'⟩ := cons_tokens hvs
  simp only [List.length_cons, List.length_append] at hn
  obtain ⟨a, hreadKey, ha⟩ := hkey.takes_expr (d := d) (by omega) n us (v :: vs ++ rest) hus (by omega)
    (stops_cons hv (by decide))
  obtain ⟨b, hreadValue, hb⟩ := hvalue.takes_expr (d := d) (by omega) n vs rest hvs' (by omega) hrest
  refine ⟨.pair a b, ?_, .pair ha hb⟩
  rw [List.append_assoc]
  refine Reads.bind hreadKey (Reads.bind (Reads.expect hv (append_ne_nil hrest) _) ?_)
  exact Reads.bind hreadValue (Reads.pure _)

theorem readable_entries {entries : List Entry} (h : ∀ entry ∈ entries, EntryReadable entry)
    {d : Nat} (hd : ∀ ks ∈ entryLexemes entries, weight ks ≤ d) :
    TakesAll (dictEntry (exprParsers (d + 1))) (· ≠ .symbol .rightBrace) (Lexeme.Below 1)
      EntryRereads entries (entryLexemes entries) := by
  induction entries with
  | nil => exact .nil
  | cons entry entries ih =>
    obtain ⟨key, value⟩ := entry
    obtain ⟨hkey, hvalue⟩ := h _ List.mem_cons_self
    obtain ⟨k, ks, hks, hk⟩ := opensWith_lexemes 0 key
    refine .cons ⟨?_, k, by simp [hks], ne_of_startsExpr (by decide) k hk.starts⟩ ?_
    · exact takes_dictEntry hkey hvalue (hd _ List.mem_cons_self)
    · exact ih (fun e he => h e (List.mem_cons_of_mem _ he))
        fun ks hks => hd ks (List.mem_cons_of_mem _ hks)

theorem readable_dict {entries : List Entry} (h : ∀ entry ∈ entries, EntryReadable entry)
    (span : Span) : Readable (.dict entries span) := by
  have hlexemes : (Expr.dict entries span).lexemes Strength.atom =
      bracketed .leftBrace .rightBrace (separated (entryLexemes entries)) := rfl
  apply Readable.of_atom rfl
  intro d hd n ts rest hts hn hrest
  rw [hlexemes] at hts hd
  rw [weight_bracketed] at hd
  obtain ⟨d, rfl⟩ := Nat.exists_eq_add_one_of_ne_zero (show d ≠ 0 by omega)
  obtain ⟨span', us, rfl, hus⟩ := opening_token hts
  rw [List.length_cons] at hn
  have hweights : ∀ ks ∈ entryLexemes entries, weight ks ≤ d := fun ks hks => by
    have hle := weight_le_separated hks
    omega
  obtain ⟨as, hreads, has⟩ := takes_itemsUntil .rightBrace (by decide) (by decide)
    (readable_entries h hweights) (by decide) n us rest hus (by omega)
    (hrest.mono fun _ _ => trivial)
  refine ⟨.dict as span', ?_, ?_⟩
  · refine Reads.bind Reads.peekToken (Reads.bind (Reads.advance (append_ne_nil hrest)) ?_)
    exact Reads.bind hreads (Reads.pure _)
  · simp only [Rereads, Expr.strip, stripEntries_of_rereads has]

/-! ## What follows an atom -/

/-- An expression that extends another one of its own strength. -/
theorem Readable.of_step {e inner : Expr} {ks : List Lexeme} {s : Nat} (hs : e.strength = s)
    (hloop : s ∈ loopLevels) (hinner : Readable inner)
    (hlexemes : e.lexemes s = inner.lexemes s ++ ks) (hstop : ∃ k ∈ ks.head?, k.Below (s + 1))
    (hstep : ∀ {d : Nat}, weight (e.lexemes s) ≤ d → ∀ a, Rereads inner a →
      Takes (extension (exprParsers d) s a) ks (Lexeme.Below (s + 1))
        fun longer => ∃ b, longer = some b ∧ Rereads e b) : Readable e := by
  subst hs
  apply Readable.of_loops hloop
  intro d hd
  have hweight := hd
  rw [hlexemes, weight_append] at hweight
  have hstep' := fun a ha => hstep hd a ha
  rw [hlexemes]
  exact (hinner.loops hloop (by omega)).step hstop hstep'

theorem readable_member {target : Expr} (h : Readable target) (field : String) (span : Span) :
    Readable (.member target field span) := by
  apply Readable.of_step (s := Strength.atom) rfl (by decide) h rfl ⟨_, rfl, by decide⟩
  intro d hd a ha n ts rest hts hn hrest
  obtain ⟨t, us, rfl, ht, hus⟩ := cons_tokens hts
  obtain ⟨u, us, rfl, hu, hus'⟩ := cons_tokens hus
  obtain rfl : us = [] := List.map_eq_nil_iff.mp hus'
  have hparen : t.kind ≠ .symbol .leftParen := by
    rw [ht]
    decide
  refine ⟨_, ?_, .member a field a.span, rfl, ?_⟩
  · refine Reads.bind (Reads.accept_false hparen) ?_
    refine Reads.bind (Reads.accept_true ht (by simp)) ?_
    exact Reads.bind (Reads.identifier hu hrest.ne_nil _) (Reads.pure _)
  · have hbare : Expr.strip .literal a = Expr.strip Constant.plain target := ha
    simp only [Rereads, Expr.strip, hbare]

theorem readable_call {callee : Expr} {args : List Expr} (hcallee : Readable callee)
    (hargs : ∀ e ∈ args, Readable e) (span : Span) : Readable (.call callee args span) := by
  apply Readable.of_step (s := Strength.atom) rfl (by decide) hcallee rfl ⟨_, rfl, by decide⟩
  intro d hd a ha n ts rest hts hn hrest
  have hweight : weight (separated (itemLexemes args)) + 2 ≤ d := by
    have hlexemes : (Expr.call callee args span).lexemes Strength.atom =
      callee.lexemes Strength.atom
        ++ bracketed .leftParen .rightParen (separated (itemLexemes args)) := rfl
    rw [hlexemes, weight_append, weight_bracketed] at hd
    omega
  obtain ⟨d, rfl⟩ := Nat.exists_eq_add_one_of_ne_zero (show d ≠ 0 by omega)
  obtain ⟨t, us, rfl, ht, hus⟩ := cons_tokens hts
  rw [List.length_cons] at hn
  obtain ⟨as, hreads, has⟩ := takes_items (d := d) hargs (.inl rfl) (by omega) n us rest hus
    (by omega) (hrest.mono fun _ _ => trivial)
  refine ⟨_, ?_, .call a as a.span, rfl, ?_⟩
  · refine Reads.bind (Reads.accept_true ht (append_ne_nil hrest)) ?_
    exact Reads.bind hreads (Reads.pure _)
  · have hbare : Expr.strip .literal a = Expr.strip Constant.plain callee := ha
    simp only [Rereads, Expr.strip, hbare, stripItems_of_rereads has]

/-- The lexemes inside of the brackets of a subscript. -/
def indexLexemes (index : Expr) : List Lexeme :=
  match index with
  | .tuple (first :: second :: others) _ => separated (itemLexemes (first :: second :: others))
  | index => index.lexemes 0

theorem takes_index {index : Expr} (h : Readable index)
    (hitems : ∀ items span, index = .tuple items span → ∀ e ∈ items, Readable e) {d : Nat}
    (hd : weight (indexLexemes index) ≤ d) :
    Takes (exprListOf (exprParsers (d + 1)).expr) (indexLexemes index)
      (fun k => k.Below 1 ∧ k ≠ .symbol .comma) (Rereads index) := by
  unfold indexLexemes at hd ⊢
  split at hd
  · next first second others span =>
    have hall := takes_exprListOf (List.cons_ne_nil second others)
      (hitems _ span rfl) hd
    refine hall.mono (fun _ hk => hk) ?_
    rintro e ⟨items', span', rfl, has⟩
    simp only [Rereads, Expr.strip, stripItems_of_rereads has]
  · exact takes_exprListOf_single h hd

theorem readable_subscript {target index : Expr} (htarget : Readable target)
    (hindex : Readable index)
    (hitems : ∀ items span, index = .tuple items span → ∀ e ∈ items, Readable e) (span : Span) :
    Readable (.subscript target index span) := by
  have hlexemes : (Expr.subscript target index span).lexemes Strength.atom =
      target.lexemes Strength.atom
        ++ bracketed .leftBracket .rightBracket (indexLexemes index) := by
    rw [Expr.lexemes.eq_def]
    exact if_neg (Nat.lt_irrefl _)
  apply Readable.of_step (s := Strength.atom) rfl (by decide) htarget hlexemes
    ⟨_, rfl, by decide⟩
  intro d hd a ha n ts rest hts hn hrest
  rw [hlexemes, weight_append, weight_bracketed] at hd
  obtain ⟨d, rfl⟩ := Nat.exists_eq_add_one_of_ne_zero (show d ≠ 0 by omega)
  obtain ⟨t, us, rfl, ht, hus⟩ := cons_tokens hts
  obtain ⟨vs, ws, rfl, hvs, hws⟩ := split_tokens hus
  obtain ⟨w, ws, rfl, hw, hws'⟩ := cons_tokens hws
  obtain rfl : ws = [] := List.map_eq_nil_iff.mp hws'
  simp only [List.length_cons, List.length_append] at hn
  obtain ⟨i, hread, hi⟩ := takes_index (d := d) hindex hitems (by omega) n vs (w :: rest) hvs
    (by omega) (stops_cons hw (by decide))
  have hparen : t.kind ≠ .symbol .leftParen := by
    rw [ht]
    decide
  have hdot : t.kind ≠ .symbol .dot := by
    rw [ht]
    decide
  refine ⟨_, ?_, .subscript a i a.span, rfl, ?_⟩
  · rw [List.cons_append, List.append_assoc]
    refine Reads.bind (Reads.accept_false hparen) (Reads.bind (Reads.accept_false hdot) ?_)
    refine Reads.bind (Reads.accept_true ht (by simp)) (Reads.bind hread ?_)
    exact Reads.bind (Reads.expectSymbol hw hrest.ne_nil) (Reads.pure _)
  · have hbare : Expr.strip .literal a = Expr.strip Constant.plain target := ha
    have hbare' : Expr.strip .literal i = Expr.strip Constant.plain index := hi
    simp only [Rereads, Expr.strip, hbare, hbare']

/-! ## Operations -/

theorem lexemes_binary {op : BinaryOp} {left right : Expr} {span : Span} {s : Nat}
    (hs : op.strength = s) : (Expr.binary op left right span).lexemes s =
      left.lexemes op.operandStrengths.1 ++ (op.lexemes ++ right.lexemes op.operandStrengths.2) := by
  subst hs
  rw [Expr.lexemes.eq_def]
  rw [← List.append_assoc]
  exact if_neg (Nat.lt_irrefl _)

theorem rereads_binary {op : BinaryOp} {left right a b : Expr} (span : Span)
    (ha : Rereads left a) (hb : Rereads right b) :
    Rereads (.binary op left right span) (Parser.binary op a b) := by
  have hleft : Expr.strip .literal a = Expr.strip Constant.plain left := ha
  have hright : Expr.strip .literal b = Expr.strip Constant.plain right := hb
  simp only [Rereads, Parser.binary, Expr.strip, hleft, hright]

theorem takes_chainStep {op? : Lexeme → Option BinaryOp} {operand : Parser Expr} {op : BinaryOp}
    {k : Lexeme} {ks : List Lexeme} {stop : Lexeme → Prop} {Q : Expr → Prop}
    (hop : op? k = some op) (h : Takes operand ks stop Q) (left : Expr) :
    Takes (chainStep op? operand left) (k :: ks) stop
      fun longer => ∃ b, longer = some (Parser.binary op left b) ∧ Q b := by
  intro n ts rest hts hn hrest
  obtain ⟨t, us, rfl, ht, hus⟩ := cons_tokens hts
  rw [List.length_cons] at hn
  obtain ⟨b, hread, hb⟩ := h n us rest hus (by omega) hrest
  refine ⟨_, ?_, b, rfl, hb⟩
  refine Reads.bind Reads.peek ?_
  rw [ht, hop]
  exact Reads.bind (Reads.advance (append_ne_nil hrest)) (Reads.bind hread (Reads.pure _))

/-- An operation of a level at which operations are grouped from the left. -/
theorem readable_chain {op : BinaryOp} {k : Lexeme} (op? : Lexeme → Option BinaryOp) {s : Nat}
    (hs : op.strength = s) (hloop : s ∈ loopLevels) (hstrengths : op.operandStrengths = (s, s + 1))
    (hlexemes : op.lexemes = [k]) (hk : k.Below (s + 1)) (hop : op? k = some op)
    (hextension : ∀ p, extension p s = chainStep op? (level p (s + 1)))
    (hbound : s + 1 ≤ Strength.atom) {left right : Expr} (hleft : Readable left)
    (hright : Readable right) (span : Span) : Readable (.binary op left right span) := by
  have hall : (Expr.binary op left right span).lexemes s =
      left.lexemes s ++ (k :: right.lexemes (s + 1)) := by
    rw [lexemes_binary hs, hstrengths, hlexemes]
    rfl
  apply Readable.of_step (e := .binary op left right span) hs hloop hleft hall ⟨k, rfl, hk⟩
  intro d hd a ha
  rw [hall, weight_append, weight_cons] at hd
  rw [hextension]
  have hoperand := hright.takes (l := s + 1) (d := d) (Nat.succ_pos s) hbound (by omega)
  refine (takes_chainStep hop hoperand a).mono (fun _ hk => hk) ?_
  rintro longer ⟨b, rfl, hb⟩
  exact ⟨_, rfl, rereads_binary span ha hb⟩

/-- No lexeme binds as strongly as a sign. -/
theorem Lexeme.Below.sign {k : Lexeme} (h : k.Below Strength.power) : k.Below Strength.sign := by
  have hne : k.tightness ≠ Strength.sign := by
    match k with
    | .symbol sign => cases sign <;> decide
    | .keyword word => cases word <;> decide
    | .indent | .dedent | .newline | .eof => decide
    | .identifier _ | .integer _ | .float _ | .formatted _ | .comment _ => exact Nat.noConfusion
    | .string _ => simp [Lexeme.tightness, Strength.atom, Strength.sign]
  exact Nat.lt_of_le_of_ne (Nat.le_of_lt_succ h) hne

theorem readable_power {base exponent : Expr} (hbase : Readable base)
    (hexponent : Readable exponent) (span : Span) : Readable (.binary .pow base exponent span) := by
  have hall : (Expr.binary .pow base exponent span).lexemes Strength.power =
      base.lexemes Strength.atom ++ (.symbol .starStar :: exponent.lexemes Strength.sign) :=
    lexemes_binary rfl
  apply Readable.of_takes (s := Strength.power) rfl (by decide)
  intro d hd n ts rest hts hn hrest
  rw [hall] at hts hd
  rw [weight_append, weight_cons] at hd
  have hpos := (Lexeme.symbol .starStar).weight_pos
  obtain ⟨d, rfl⟩ := Nat.exists_eq_add_one_of_ne_zero (show d ≠ 0 by omega)
  obtain ⟨us, vs, rfl, hus, hvs⟩ := split_tokens hts
  obtain ⟨v, vs, rfl, hv, hvs'⟩ := cons_tokens hvs
  simp only [List.length_cons, List.length_append] at hn
  obtain ⟨a, hread, ha⟩ := hbase.takes (l := Strength.atom) (d := d + 1) (by decide) (by decide)
    (by omega) n us (v :: vs ++ rest) hus (by omega) (stops_cons hv (by decide))
  obtain ⟨b, hread', hb⟩ := hexponent.takes (l := Strength.sign) (d := d) (by decide) (by decide)
    (by omega) n vs rest hvs' (by omega) (hrest.mono fun _ hk => hk.sign)
  refine ⟨Parser.binary .pow a b, ?_, rereads_binary span ha hb⟩
  rw [List.append_assoc]
  refine Reads.bind hread (Reads.bind (Reads.accept_true hv (append_ne_nil hrest)) ?_)
  exact Reads.bind hread' (Reads.pure _)

/-- The lexemes of a comparison are read as it. -/
theorem comparisonOp?_some {op : BinaryOp} (hop : op.strength = Strength.comparison) {n : Nat}
    {ts rest : List Token} (hts : ts.map Token.kind = op.lexemes) (hne : rest ≠ []) :
    Reads comparisonOp? n (ts ++ rest) (some op) rest := by
  obtain ⟨u, rest, rfl⟩ := List.exists_cons_of_ne_nil hne
  cases op with
  | eq | ne | lt | gt | le | ge | isIn =>
    obtain ⟨⟨kind, span⟩, us, rfl, rfl, hus⟩ := cons_tokens hts
    obtain rfl : us = [] := List.map_eq_nil_iff.mp hus
    rfl
  | notIn =>
    obtain ⟨⟨kind, span⟩, us, rfl, rfl, hus⟩ := cons_tokens hts
    obtain ⟨⟨kind', span'⟩, us, rfl, rfl, hus'⟩ := cons_tokens hus
    obtain rfl : us = [] := List.map_eq_nil_iff.mp hus'
    rfl
  | add | sub | mul | div | floorDiv | mod | pow | and | or => exact absurd hop (by decide)

theorem comparison_lexemes {op : BinaryOp} (hop : op.strength = Strength.comparison) :
    op.operandStrengths = (Strength.sum, Strength.sum) ∧
      ∃ k ∈ op.lexemes.head?, k.Below Strength.sum := by
  cases op <;> first | exact absurd hop (by decide) | exact ⟨rfl, _, rfl, by decide⟩

theorem readable_comparison {op : BinaryOp} (hop : op.strength = Strength.comparison)
    {left right : Expr} (hleft : Readable left) (hright : Readable right) (span : Span) :
    Readable (.binary op left right span) := by
  obtain ⟨hstrengths, k, hk, hbelow⟩ := comparison_lexemes hop
  obtain ⟨ks, hks⟩ := List.head?_eq_some_iff.mp hk
  have hall : (Expr.binary op left right span).lexemes Strength.comparison =
      left.lexemes Strength.sum ++ (op.lexemes ++ right.lexemes Strength.sum) := by
    rw [lexemes_binary hop, hstrengths]
  apply Readable.of_takes (e := .binary op left right span) hop (by decide)
  intro d hd n ts rest hts hn hrest
  rw [hall] at hts hd
  rw [weight_append, weight_append] at hd
  obtain ⟨us, tail, rfl, hus, htail⟩ := split_tokens hts
  obtain ⟨os, vs, rfl, hos, hvs⟩ := split_tokens htail
  rw [List.length_append, List.length_append] at hn
  obtain ⟨o, os, rfl, ho, -⟩ := cons_tokens (hks ▸ hos)
  obtain ⟨a, hread, ha⟩ := hleft.takes (l := Strength.sum) (d := d) (by decide) (by decide)
    (by omega) n us (o :: os ++ vs ++ rest) hus (by omega) (stops_cons ho hbelow)
  obtain ⟨b, hread', hb⟩ := hright.takes (l := Strength.sum) (d := d) (by decide) (by decide)
    (by omega) n vs rest hvs (by omega) (hrest.mono (Lexeme.Below.mono (by decide)))
  refine ⟨Parser.binary op a b, ?_, rereads_binary span ha hb⟩
  rw [List.append_assoc]
  refine Reads.bind hread ?_
  rw [List.append_assoc]
  refine Reads.bind (comparisonOp?_some hop hos (append_ne_nil hrest)) ?_
  exact Reads.bind hread' (Reads.pure _)

/-- An operation with one operand, of which the operator was taken. -/
theorem rereads_unary {op : UnaryOp} {operand a : Expr} (span span' : Span)
    (ha : Rereads operand a) : Rereads (.unary op operand span) (.unary op a span') := by
  have hbare : Expr.strip .literal a = Expr.strip Constant.plain operand := ha
  simp only [Rereads, Expr.strip, hbare]

theorem readable_not {operand : Expr} (h : Readable operand) (span : Span) :
    Readable (.unary .not operand span) := by
  have hall : (Expr.unary .not operand span).lexemes Strength.negation =
      .keyword .notKw :: operand.lexemes Strength.negation := rfl
  apply Readable.of_takes (s := Strength.negation) rfl (by decide)
  intro d hd n ts rest hts hn hrest
  rw [hall] at hts hd
  rw [weight_cons] at hd
  have hpos := (Lexeme.keyword .notKw).weight_pos
  obtain ⟨d, rfl⟩ := Nat.exists_eq_add_one_of_ne_zero (show d ≠ 0 by omega)
  obtain ⟨t, us, rfl, ht, hus⟩ := cons_tokens hts
  rw [List.length_cons] at hn
  obtain ⟨a, hread, ha⟩ := h.takes (l := Strength.negation) (d := d) (by decide) (by decide)
    (by omega) n us rest hus (by omega) hrest
  refine ⟨.unary .not a t.span, ?_, rereads_unary span t.span ha⟩
  refine Reads.bind (Reads.isAt _) ?_
  rw [decide_eq_true ht]
  exact Reads.bind (Reads.advance (append_ne_nil hrest)) (Reads.bind hread (Reads.pure _))

theorem readable_neg {operand : Expr} (h : Readable operand) (span : Span) :
    Readable (.unary .neg operand span) := by
  have hall : (Expr.unary .neg operand span).lexemes Strength.sign =
      .symbol .minus :: operand.lexemes Strength.sign := rfl
  apply Readable.of_takes (s := Strength.sign) rfl (by decide)
  intro d hd n ts rest hts hn hrest
  rw [hall] at hts hd
  rw [weight_cons] at hd
  have hpos := (Lexeme.symbol .minus).weight_pos
  obtain ⟨d, rfl⟩ := Nat.exists_eq_add_one_of_ne_zero (show d ≠ 0 by omega)
  obtain ⟨⟨kind, span'⟩, us, rfl, rfl, hus⟩ := cons_tokens hts
  rw [List.length_cons] at hn
  obtain ⟨k, ks, hfirst, hk⟩ := opensWith_lexemes Strength.sign operand
  obtain ⟨u, us, rfl, hu, -⟩ := cons_tokens (hfirst ▸ hus)
  obtain ⟨a, hread, ha⟩ := h.takes (l := Strength.sign) (d := d) (by decide) (by decide)
    (by omega) n (u :: us) rest hus (by omega) hrest
  refine ⟨.unary .neg a span', ?_, rereads_unary span span' ha⟩
  have hsmall : ¬ (UnaryOp.neg = .neg ∧ u.kind = .integer (Nat.pow 2 63)) :=
    fun hand => hk.small (hu ▸ hand.2)
  refine Reads.bind Reads.peek (Reads.bind (Reads.advance (by simp)) ?_)
  refine Reads.bind Reads.peek ?_
  rw [if_neg hsmall]
  exact Reads.bind hread (Reads.pure _)

theorem readable_pos {operand : Expr} (h : Readable operand) (span : Span) :
    Readable (.unary .pos operand span) := by
  have hall : (Expr.unary .pos operand span).lexemes Strength.sign =
      .symbol .plus :: operand.lexemes Strength.sign := rfl
  apply Readable.of_takes (s := Strength.sign) rfl (by decide)
  intro d hd n ts rest hts hn hrest
  rw [hall] at hts hd
  rw [weight_cons] at hd
  have hpos := (Lexeme.symbol .plus).weight_pos
  obtain ⟨d, rfl⟩ := Nat.exists_eq_add_one_of_ne_zero (show d ≠ 0 by omega)
  obtain ⟨⟨kind, span'⟩, us, rfl, rfl, hus⟩ := cons_tokens hts
  rw [List.length_cons] at hn
  obtain ⟨k, ks, hfirst, hk⟩ := opensWith_lexemes Strength.sign operand
  obtain ⟨u, us, rfl, hu, -⟩ := cons_tokens (hfirst ▸ hus)
  obtain ⟨a, hread, ha⟩ := h.takes (l := Strength.sign) (d := d) (by decide) (by decide)
    (by omega) n (u :: us) rest hus (by omega) hrest
  refine ⟨.unary .pos a span', ?_, rereads_unary span span' ha⟩
  refine Reads.bind Reads.peek (Reads.bind (Reads.advance (by simp)) ?_)
  refine Reads.bind Reads.peek ?_
  rw [if_neg fun hand => UnaryOp.noConfusion hand.1]
  exact Reads.bind hread (Reads.pure _)

theorem readable_conditional {condition thenValue elseValue : Expr}
    (hcondition : Readable condition) (hthen : Readable thenValue) (helse : Readable elseValue)
    (span : Span) : Readable (.conditional condition thenValue elseValue span) := by
  have hall : (Expr.conditional condition thenValue elseValue span).lexemes Strength.conditional =
      thenValue.lexemes Strength.disjunction ++ (.keyword .ifKw ::
        (condition.lexemes Strength.disjunction ++ (.keyword .elseKw ::
          elseValue.lexemes Strength.conditional))) := by
    rw [Expr.lexemes.eq_def]
    simp [Expr.strength]
  apply Readable.of_takes (s := Strength.conditional) rfl (by decide)
  intro d hd n ts rest hts hn hrest
  rw [hall] at hts hd
  simp only [weight_append, weight_cons, Lexeme.weight] at hd
  obtain ⟨d, rfl⟩ := Nat.exists_eq_add_one_of_ne_zero (show d ≠ 0 by omega)
  obtain ⟨us, vs, rfl, hus, hvs⟩ := split_tokens hts
  obtain ⟨v, vs, rfl, hv, hvs'⟩ := cons_tokens hvs
  obtain ⟨vs, ws, rfl, hcs, hws⟩ := split_tokens hvs'
  obtain ⟨w, ws, rfl, hw, hws'⟩ := cons_tokens hws
  simp only [List.length_cons, List.length_append] at hn
  obtain ⟨a, hreadThen, ha⟩ := hthen.takes (l := Strength.disjunction) (d := d + 1) (by decide)
    (by decide) (by omega) n us (v :: (vs ++ (w :: ws ++ rest))) hus (by omega)
    (stops_cons hv (by decide))
  obtain ⟨c, hreadCondition, hc⟩ := hcondition.takes (l := Strength.disjunction) (d := d + 1)
    (by decide) (by decide) (by omega) n vs (w :: ws ++ rest) hcs (by omega)
    (stops_cons hw (by decide))
  obtain ⟨b, hreadElse, hb⟩ := helse.takes (l := Strength.conditional) (d := d) (by decide)
    (by decide) (by omega) n ws rest hws' (by omega) hrest
  have htokens : us ++ v :: (vs ++ w :: ws) ++ rest = us ++ v :: (vs ++ (w :: ws ++ rest)) := by
    simp
  refine ⟨.conditional c a b a.span, ?_, ?_⟩
  · rw [htokens]
    refine Reads.bind hreadThen (Reads.bind (Reads.accept_true hv (by simp)) ?_)
    refine Reads.bind hreadCondition (Reads.bind (Reads.expect hw (append_ne_nil hrest) _) ?_)
    exact Reads.bind hreadElse (Reads.pure _)
  · have h1 : Expr.strip .literal c = Expr.strip Constant.plain condition := hc
    have h2 : Expr.strip .literal a = Expr.strip Constant.plain thenValue := ha
    have h3 : Expr.strip .literal b = Expr.strip Constant.plain elseValue := hb
    simp only [Rereads, Expr.strip, h1, h2, h3]

end StagedScript.Syntax
