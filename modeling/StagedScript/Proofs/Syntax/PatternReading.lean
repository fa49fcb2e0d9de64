import StagedScript.Proofs.Syntax.LegibleReading
import StagedScript.Proofs.Syntax.PatternText
import StagedScript.Syntax.Parser.Statement

/-!
# Reading printed patterns

The lexemes of a legible pattern are read as the pattern.  Bars bind less
strongly than anything else, so a pattern is read as its alternatives.
-/

namespace StagedScript.Syntax

open Text StagedScript.Syntax.Parser

/-! ## Literals -/

variable {p : ExprParsers} {inner : Parser Pattern} {constant : Constant → Prop}

theorem closedPattern_literal {n : Nat} {t : Token} {ts : List Token}
    (h : t.kind.isLiteral = true) :
    closedPattern p inner n (t :: ts) = (Pattern.value <$> atom p) n (t :: ts) := by
  obtain ⟨kind, span⟩ := t
  replace h : kind.isLiteral = true := h
  match kind, h with
  | .integer _, _ | .float _, _ | .string _, _ => rfl
  | .keyword word, h => cases word <;> first | exact absurd h (by decide) | rfl

/-- A literal without a sign. -/
theorem takes_literal {c : Constant} {k : Lexeme} (h : ReadFrom (.constant c .synthetic) k)
    (hplain : c.plain = .literal c) (hk : k.isLiteral = true) :
    Takes (closedPattern p inner) [k] (Lexeme.Below 1) (·.bare = .value (.literal c)) := by
  intro n ts rest hts hn hrest
  obtain ⟨⟨kind, span⟩, us, rfl, ht, hus⟩ := cons_tokens hts
  obtain rfl : us = [] := List.map_eq_nil_iff.mp hus
  obtain rfl : kind = k := ht
  obtain ⟨a, hread, ha⟩ := h p n span rest (hrest.mono (Lexeme.Below.mono (by decide))) hn
  refine ⟨.value a, ?_, ?_⟩
  · exact (closedPattern_literal hk).trans hread.map
  · have hbare : Expr.strip .literal a = Expr.strip Constant.plain (.constant c .synthetic) := ha
    show Pattern.value (Expr.strip .literal a) = _
    rw [hbare, Expr.strip, hplain]

theorem takes_negative_int {m : Int64} (hneg : m.toInt < 0) :
    Takes (closedPattern p inner) [.symbol .minus, .integer m.toInt.natAbs] (Lexeme.Below 1)
      (·.bare = .value (.literal (.int m))) := by
  intro n ts rest hts hn hrest
  obtain ⟨⟨kind, span⟩, us, rfl, rfl, hus⟩ := cons_tokens hts
  obtain ⟨⟨kind, span'⟩, us, rfl, rfl, hus'⟩ := cons_tokens hus
  obtain rfl : us = [] := List.map_eq_nil_iff.mp hus'
  have hbound : m.toInt.natAbs ≤ Nat.pow 2 63 := by
    have hle := m.le_toInt
    simp only [Nat.pow_eq]
    omega
  have hvalue : -(m.toInt.natAbs : Int) = m.toInt := by omega
  refine ⟨.value (.constant (.int m) span), ?_, rfl⟩
  refine Reads.bind Reads.peekToken (Reads.bind (Reads.advance (by simp)) ?_)
  refine Reads.bind (Reads.advance hrest.ne_nil) ?_
  dsimp only
  rw [if_pos hbound, hvalue, Int64.ofInt_toInt]
  exact Reads.pure _

theorem takes_negative_float {x : Float} (hx : - -x = x) :
    Takes (closedPattern p inner) [.symbol .minus, .float (-x)] (Lexeme.Below 1)
      (·.bare = .value (.literal (.float x))) := by
  intro n ts rest hts hn hrest
  obtain ⟨⟨kind, span⟩, us, rfl, rfl, hus⟩ := cons_tokens hts
  obtain ⟨⟨kind, span'⟩, us, rfl, rfl, hus'⟩ := cons_tokens hus
  obtain rfl : us = [] := List.map_eq_nil_iff.mp hus'
  refine ⟨.value (.constant (.float (- -x)) span), ?_, ?_⟩
  · refine Reads.bind Reads.peekToken (Reads.bind (Reads.advance (by simp)) ?_)
    exact Reads.bind (Reads.advance hrest.ne_nil) (Reads.pure _)
  · rw [hx]
    rfl

theorem takes_constant {c : Constant} (hc : c.LegiblePattern) (span : Span) :
    Takes (closedPattern p inner) ((Expr.constant c span).lexemes 0) (Lexeme.Below 1)
      (·.bare = .value (.literal c)) := by
  rw [Expr.lexemes_of_le (Nat.zero_le _), Expr.lexemes_constant]
  match c, hc with
  | .none, _ => exact takes_literal (readFrom_none _) rfl rfl
  | .bool true, _ => exact takes_literal (readFrom_true _) rfl rfl
  | .bool false, _ => exact takes_literal (readFrom_false _) rfl rfl
  | .string s, _ => exact takes_literal (readFrom_string s _) rfl rfl
  | .int m, _ =>
    by_cases hneg : m.toInt < 0
    · simpa [Constant.lexemes, signLexemes, hneg] using takes_negative_int hneg
    · have hnot : ¬ m < 0 := fun h => hneg ((Int64.toInt_neg_iff m).mpr h)
      have hplain : (Constant.int m).plain = .literal (.int m) := by
        simp [Constant.plain, hnot]
      have htakes : Takes (closedPattern p inner) [.integer m.toInt.natAbs] (Lexeme.Below 1)
          (·.bare = .value (.literal (.int m))) :=
        takes_literal (readFrom_integer hneg .synthetic) hplain rfl
      simpa [Constant.lexemes, signLexemes, hneg] using htakes
  | .float x, hc =>
    obtain ⟨hback, hfinite⟩ := hc
    obtain ⟨b, hb⟩ := Decimal.decode_of_isFinite (hfinite x rfl)
    have hreread : Decimal.reread b = if b.negative then -x else x := hback.reread_eq hb
    by_cases hneg : b.negative = true
    · simpa [Constant.lexemes, signLexemes, hb, hneg, hreread] using
        takes_negative_float (Decimal.neg_neg_of_finite hb)
    · have hpos : b.negative = false := by simpa using hneg
      have hplain : (Constant.float x).plain = .literal (.float x) := by
        simp [Constant.plain, hb, hpos]
      have htakes : Takes (closedPattern p inner) [.float x] (Lexeme.Below 1)
          (·.bare = .value (.literal (.float x))) :=
        takes_literal (readFrom_float hb hpos .synthetic) hplain rfl
      simpa [Constant.lexemes, signLexemes, hb, hpos, hreread] using htakes

/-! ## Dotted names -/

/-- The names in a dotted name after the first one. -/
def Expr.fields : Expr → List String
  | .member target field _ => target.fields ++ [field]
  | _ => []

/-- The first name in a dotted name. -/
def Expr.head : Expr → String
  | .name id _ => id
  | .member target _ _ => target.head
  | _ => ""

def dotted (e : Expr) (fields : List String) : Expr :=
  fields.foldl (fun target field => .member target field .synthetic) e

theorem Expr.IsDotted.bare_eq {e : Expr} (h : e.IsDotted) :
    e.bare = dotted (.named e.head) e.fields := by
  match e, h with
  | .name id _, _ => rfl
  | .member target field _, h =>
    have htarget := Expr.IsDotted.bare_eq h.1
    simp only [Expr.bare, Expr.strip] at htarget ⊢
    simp [htarget, Expr.fields, Expr.head, dotted, List.foldl_append]

theorem Expr.IsDotted.head_ne {e : Expr} (h : e.IsDotted) : e.head ≠ "_" := by
  match e, h with
  | .name id _, h => exact h.2
  | .member target field _, h =>
    show target.head ≠ "_"
    exact Expr.IsDotted.head_ne h.1

theorem length_fieldLexemes (fields : List String) :
    (fieldLexemes fields).length = 2 * fields.length := by
  induction fields with
  | nil => rfl
  | cons field fields ih =>
    simp only [fieldLexemes, List.flatMap_cons, List.length_append, List.length_cons,
      List.length_nil] at ih ⊢
    omega

theorem Expr.IsDotted.lexemes_eq {e : Expr} (h : e.IsDotted) (l : Nat) (hl : l ≤ Strength.atom) :
    e.lexemes l = .identifier e.head :: fieldLexemes e.fields := by
  match e, h with
  | .name id _, _ =>
    rw [Expr.lexemes_of_le hl]
    rfl
  | .member target field _, h =>
    rw [Expr.lexemes_of_le hl, Expr.lexemes.eq_def]
    dsimp only
    rw [if_neg (Nat.lt_irrefl _), Expr.IsDotted.lexemes_eq h.1 _ (Nat.le_refl _)]
    simp [Expr.head, Expr.fields, fieldLexemes]

theorem takes_fields (fields : List String) :
    ∀ m, fields.length < m → ∀ e : Expr, Takes (fieldsAfter m e) (fieldLexemes fields)
      (· ≠ .symbol .dot) (·.bare = dotted e.bare fields) := by
  induction fields with
  | nil =>
    intro m hm e n ts rest hts hn hrest
    obtain ⟨m, rfl⟩ := Nat.exists_eq_add_one_of_ne_zero (show m ≠ 0 by omega)
    obtain rfl : ts = [] := List.map_eq_nil_iff.mp hts
    obtain ⟨t, rest, rfl, ht⟩ := hrest
    exact ⟨e, Reads.bind (Reads.accept_false ht) (Reads.pure e), rfl⟩
  | cons field fields ih =>
    intro m hm e n ts rest hts hn hrest
    rw [List.length_cons] at hm
    obtain ⟨m, rfl⟩ := Nat.exists_eq_add_one_of_ne_zero (show m ≠ 0 by omega)
    obtain ⟨t, us, rfl, ht, hus⟩ := cons_tokens hts
    obtain ⟨u, us, rfl, hu, hus'⟩ := cons_tokens hus
    simp only [List.length_cons] at hn
    obtain ⟨a, hread, ha⟩ := ih m (by omega) (.member e field u.span) n us rest hus' (by omega)
      hrest
    refine ⟨a, ?_, ha⟩
    refine Reads.bind (Reads.accept_true ht (by simp)) ?_
    exact Reads.bind (Reads.identifier hu (append_ne_nil hrest) _) hread

theorem takes_dotted {target : Expr} {field : String} (h : target.IsDotted) (span : Span) :
    Takes (closedPattern p inner) ((Expr.member target field span).lexemes 0) (Lexeme.Below 1)
      (·.bare = .value (Expr.member target field span).bare) := by
  have hlexemes : (Expr.member target field span).lexemes 0 =
      .identifier target.head :: (fieldLexemes (target.fields ++ [field])) := by
    rw [Expr.lexemes_of_le (Nat.zero_le _), Expr.lexemes.eq_def]
    dsimp only
    rw [if_neg (Nat.lt_irrefl _), h.lexemes_eq _ (Nat.le_refl _)]
    simp [fieldLexemes]
  intro n ts rest hts hn hrest
  rw [hlexemes] at hts
  obtain ⟨⟨kind, start⟩, us, rfl, rfl, hus⟩ := cons_tokens hts
  rw [List.length_cons] at hn
  have hsecond : us.head?.map (·.kind) = some (.symbol .dot) := by
    rw [← List.head?_map, hus]
    cases target.fields <;> rfl
  have hlength : (target.fields ++ [field]).length < n := by
    have hle := congrArg List.length hus
    rw [List.length_map, length_fieldLexemes] at hle
    omega
  have hnext : Stops (· ≠ .symbol .dot) rest := hrest.mono fun k hk heq => by
    rw [heq] at hk
    exact absurd hk (by decide)
  obtain ⟨a, hread, ha⟩ := takes_fields _ n hlength (.name target.head start) n us rest hus
    (by omega) hnext
  refine ⟨.value a, ?_, ?_⟩
  · have hdot : ((us ++ rest).head?.map (·.kind)) = some (.symbol .dot) := by
      cases us with
      | nil => simp at hsecond
      | cons u us => exact hsecond
    rw [List.cons_append]
    refine Reads.bind Reads.peekToken (Reads.bind Reads.peekSecond ?_)
    refine Reads.bind (Reads.advance (append_ne_nil hrest)) ?_
    rw [if_neg h.head_ne, if_pos hdot]
    exact Reads.bind (Reads.bounded hread) (Reads.pure _)
  · have htarget := h.bare_eq
    show Pattern.value a.bare = _
    rw [ha]
    simp only [Expr.bare, Expr.strip] at htarget ⊢
    rw [htarget]
    simp [dotted, List.foldl_append]

/-! ## Alternatives -/

theorem flatPatterns_eq_map (patterns : List Pattern) :
    flatPatterns patterns = patterns.map Pattern.flat := by
  induction patterns with
  | nil => rfl
  | cons q patterns ih => rw [flatPatterns, ih, List.map_cons]

/-- Patterns that are each read as another one, with nested alternatives put together. -/
theorem barePatterns_eq_of_forall₂ {patterns as : List Pattern}
    (h : List.Forall₂ (fun q a => a.bare = q.flat) patterns as) :
    barePatterns as = patterns.map Pattern.flat := by
  induction h with
  | nil => rfl
  | cons hfirst _ ih => rw [barePatterns, hfirst, ih, List.map_cons]

theorem barred_cons (ks : List Lexeme) (kss : List (List Lexeme)) :
    barred (ks :: kss) = ks ++ preceded .pipe kss :=
  intercalate_symbol .pipe ks kss

theorem barred_append {kss kss' : List (List Lexeme)} (h : kss ≠ []) (h' : kss' ≠ []) :
    barred (kss ++ kss') = barred kss ++ .symbol .pipe :: barred kss' := by
  obtain ⟨ks, kss, rfl⟩ := List.exists_cons_of_ne_nil h
  obtain ⟨ks', kss', rfl⟩ := List.exists_cons_of_ne_nil h'
  rw [List.cons_append, barred_cons, barred_cons, barred_cons]
  simp [preceded]

mutual

/-- There are alternatives, and with bars between them they are printed like the pattern. -/
theorem Pattern.lexemes_options (q : Pattern) (hq : q.Holds constant) :
    q.options ≠ [] ∧ q.lexemes = barred (q.options.map Pattern.lexemes) := by
  match q, hq with
  | .wildcard, _ | .capture _, _ | .value _, _ | .sequence _, _ =>
    exact ⟨List.cons_ne_nil _ _, (List.append_nil _).symm⟩
  | .alternatives options, hq =>
    apply lexemes_allOptions options hq.2
    rintro rfl
    exact absurd hq.1 (by decide)

theorem lexemes_allOptions (patterns : List Pattern) (h : PatternsHold constant patterns)
    (hne : patterns ≠ []) : allOptions patterns ≠ [] ∧
      barred (patternLexemes patterns) = barred ((allOptions patterns).map Pattern.lexemes) := by
  match patterns, h, hne with
  | [q], h, _ =>
    obtain ⟨hoptions, hlexemes⟩ := Pattern.lexemes_options q h.1
    rw [allOptions, allOptions, List.append_nil]
    exact ⟨hoptions, (List.append_nil _).trans hlexemes⟩
  | q :: q' :: patterns, h, _ =>
    obtain ⟨hoptions, hlexemes⟩ := Pattern.lexemes_options q h.1
    obtain ⟨hothers, hrest⟩ := lexemes_allOptions (q' :: patterns) h.2 (List.cons_ne_nil _ _)
    constructor
    · rw [allOptions]
      exact List.append_ne_nil_of_left_ne_nil hoptions _
    · rw [allOptions, List.map_append, barred_append, ← hlexemes, ← hrest, patternLexemes]
      · rw [← List.singleton_append, barred_append (List.cons_ne_nil _ _)]
        · rw [barred_cons]
          simp [preceded]
        · rw [patternLexemes]
          exact List.cons_ne_nil _ _
      · simpa using hoptions
      · simpa using hothers

end

theorem length_le_barred {ks : List Lexeme} {kss : List (List Lexeme)} (h : ks ∈ kss) :
    ks.length ≤ (barred kss).length := by
  cases kss with
  | nil => exact absurd h List.not_mem_nil
  | cons ks' kss =>
    rw [barred_cons, List.length_append]
    rcases List.mem_cons.mp h with rfl | h
    · omega
    · have hle : (Lexeme.symbol .pipe :: ks).length ≤ (preceded .pipe kss).length :=
        (List.sublist_flatten_of_mem (List.mem_map_of_mem h)).length_le
      rw [List.length_cons] at hle
      omega

theorem Pattern.length_options {q o : Pattern} (hq : q.Holds constant) (ho : o ∈ q.options) :
    o.lexemes.length ≤ q.lexemes.length := by
  rw [(q.lexemes_options hq).2]
  exact length_le_barred (List.mem_map_of_mem ho)

/-- Two or more alternatives are read as one pattern, a single one as itself. -/
theorem takes_barred {o : Pattern} {os : List Pattern}
    (h : ∀ q ∈ o :: os, Takes (closedPattern p inner) q.lexemes (Lexeme.Below 1)
      (·.bare = q.flat)) (hfirst : ∀ q ∈ os, ∃ k, k ∈ q.lexemes.head?) :
    Takes (orPattern p inner) (barred ((o :: os).map Pattern.lexemes))
      (fun k => k.Below 1 ∧ k ≠ .symbol .pipe)
      (fun a => if os = [] then a.bare = o.flat
        else a.bare = .alternatives ((o :: os).map Pattern.flat)) := by
  have hbelow : Lexeme.Below 1 (.symbol .pipe) := by decide
  intro n ts rest hts hn hrest
  rw [List.map_cons, barred_cons] at hts
  obtain ⟨us, vs, rfl, hus, hvs⟩ := split_tokens hts
  rw [List.length_append] at hn
  have ho := h o List.mem_cons_self
  cases os with
  | nil =>
    obtain rfl : vs = [] := List.map_eq_nil_iff.mp hvs
    obtain ⟨a, hread, ha⟩ := ho n us rest hus (by omega) (hrest.mono fun _ hk => hk.1)
    obtain ⟨t, rest, rfl, -, ht⟩ := hrest
    refine ⟨a, ?_, ha⟩
    rw [List.append_nil]
    refine Reads.bind hread (Reads.bind (Reads.isAt _) ?_)
    rw [decide_eq_false ht]
    exact Reads.pure a
  | cons o' os =>
    obtain ⟨v, vs, rfl, hv, hvs'⟩ := cons_tokens hvs
    obtain ⟨a, hread, ha⟩ := ho n us (v :: vs ++ rest) hus (by omega) (stops_cons hv hbelow)
    have hall : TakesAll (closedPattern p inner) (fun _ => true = true) (Lexeme.Below 1)
        (fun q a => a.bare = q.flat) (o' :: os) ((o' :: os).map Pattern.lexemes) := by
      rw [TakesAll, List.forall₂_map_right_iff, List.forall₂_same]
      intro q hq
      obtain ⟨k, hk⟩ := hfirst q hq
      exact ⟨h q (List.mem_cons_of_mem _ hq), k, hk, rfl⟩
    have hlength : (o' :: os).length < n := by
      have hle := length_le_preceded .pipe ((o' :: os).map Pattern.lexemes)
      rw [← hvs, List.length_map, List.length_map] at hle
      omega
    have hothers := takes_itemsAfter hbelow hall n hlength
    obtain ⟨as, hreads, has⟩ := hothers n (v :: vs) rest hvs (by omega) hrest
    refine ⟨.alternatives (a :: as), ?_, ?_⟩
    · rw [List.append_assoc]
      refine Reads.bind hread (Reads.bind (Reads.isAt _) ?_)
      rw [decide_eq_true hv]
      exact Reads.bind hreads (Reads.pure _)
    · show Pattern.alternatives (barePatterns (a :: as)) = _
      rw [barePatterns_eq_of_forall₂ (.cons ha has)]

/-! ## All patterns -/

theorem allOptions_eq_flatMap (patterns : List Pattern) :
    allOptions patterns = patterns.flatMap Pattern.options := by
  induction patterns with
  | nil => rfl
  | cons q patterns ih => rw [allOptions, ih, List.flatMap_cons]

mutual

theorem Pattern.legible_options (q : Pattern) (hq : q.Holds constant) :
    ∀ o ∈ q.options, o.Holds constant := by
  match q, hq with
  | .wildcard, hq | .capture _, hq | .value _, hq | .sequence _, hq =>
    intro o ho
    rw [List.mem_singleton.mp ho]
    exact hq
  | .alternatives options, hq => exact legible_allOptions options hq.2

theorem legible_allOptions (patterns : List Pattern) (h : PatternsHold constant patterns) :
    ∀ o ∈ allOptions patterns, o.Holds constant := by
  match patterns, h with
  | [], _ => exact fun _ h => absurd h List.not_mem_nil
  | q :: patterns, h =>
    intro o ho
    rcases List.mem_append.mp ho with ho | ho
    · exact Pattern.legible_options q h.1 o ho
    · exact legible_allOptions patterns h.2 o ho

end

theorem Pattern.lexemes_head (q : Pattern) (hq : q.Holds constant) :
    ∃ k ∈ q.lexemes.head?, k ≠ .symbol .rightParen := by
  match q, hq with
  | .wildcard, _ | .capture _, _ => exact ⟨_, rfl, Lexeme.noConfusion⟩
  | .value expr, _ =>
    obtain ⟨k, hk, hstarts⟩ := (opensWith_lexemes 0 expr).starts
    exact ⟨k, hk, ne_of_startsExpr (by decide) k hstarts⟩
  | .sequence items, _ =>
    show ∃ k ∈ (tupleLexemes (patternLexemes items)).head?, _
    refine ⟨.symbol .leftParen, ?_, by decide⟩
    unfold tupleLexemes
    split <;> rfl
  | .alternatives [], hq => exact absurd hq.1 (by decide)
  | .alternatives (o :: options), hq =>
    obtain ⟨k, hk, hne⟩ := Pattern.lexemes_head o hq.2.1
    refine ⟨k, ?_, hne⟩
    rw [Pattern.lexemes, patternLexemes, barred_cons, List.head?_append, hk]
    rfl

theorem length_le_tupleLexemes {ks : List Lexeme} {kss : List (List Lexeme)} (h : ks ∈ kss) :
    ks.length + 2 ≤ (tupleLexemes kss).length := by
  match kss, h with
  | [ks'], h =>
    rw [List.mem_singleton.mp h]
    simp [tupleLexemes, bracketed]
  | ks' :: ks'' :: kss, h =>
    have hle : ks.length ≤ (separated (ks' :: ks'' :: kss)).length := by
      rw [separated_cons, List.length_append]
      rcases List.mem_cons.mp h with rfl | h
      · omega
      · have hle : (Lexeme.symbol .comma :: ks).length ≤
            (preceded .comma (ks'' :: kss)).length :=
          (List.sublist_flatten_of_mem (List.mem_map_of_mem h)).length_le
        rw [List.length_cons] at hle
        omega
    simp only [tupleLexemes, bracketed, List.length_cons, List.length_append, List.length_nil]
    omega

/-- A pattern is read through its alternatives. -/
theorem takes_within {q : Pattern} {d : Nat} (hq : q.Holds constant)
    (h : ∀ o ∈ q.options, Takes (closedPattern p (patternWithin p d)) o.lexemes (Lexeme.Below 1)
      (·.bare = o.flat)) :
    Takes (patternWithin p (d + 1)) q.lexemes (fun k => k.Below 1 ∧ k ≠ .symbol .pipe)
      (·.bare = q.flat) := by
  obtain ⟨hne, hlexemes⟩ := q.lexemes_options hq
  have hflat : (if q.options.length = 1 then q.options.map Pattern.flat = [q.flat]
      else q.flat = .alternatives (q.options.map Pattern.flat)) := by
    cases q with
    | alternatives options =>
      have hlength : 2 ≤ (allOptions options).length := by
        match options, hq with
        | o :: o' :: options, hq =>
          have hfirst := List.length_pos_iff.mpr (o.lexemes_options hq.2.1).1
          have hsecond := List.length_pos_iff.mpr (o'.lexemes_options hq.2.2.1).1
          simp only [allOptions, List.length_append]
          omega
        | [_], hq | [], hq => exact absurd hq.1 (by simp)
      have hnot : ¬ (allOptions options).length = 1 := by omega
      rw [Pattern.options, if_neg hnot, Pattern.flat, flatOptions_eq]
    | wildcard | capture _ | value _ | sequence _ => rfl
  have hheads : ∀ o ∈ q.options, ∃ k, k ∈ o.lexemes.head? := by
    intro o ho
    obtain ⟨k, hk, -⟩ := o.lexemes_head (q.legible_options hq o ho)
    exact ⟨k, hk⟩
  revert hne hlexemes hflat hheads h
  generalize q.options = options
  intro h hne hlexemes hflat hheads
  obtain ⟨o, os, rfl⟩ := List.exists_cons_of_ne_nil hne
  rw [hlexemes]
  have htakes := takes_barred h fun q hq => hheads q (List.mem_cons_of_mem _ hq)
  refine htakes.mono (fun _ hk => hk) fun a ha => ?_
  cases os with
  | nil =>
    rw [if_pos rfl] at ha
    rw [ha]
    simpa using hflat
  | cons o' os =>
    rw [if_neg (List.cons_ne_nil _ _)] at ha
    rw [if_neg (by simp)] at hflat
    rw [ha, hflat]

/-- The items of a sequence, in parentheses. -/
theorem takes_sequence {items : List Pattern} (hitems : PatternsHold constant items)
    (h : ∀ q ∈ items, Takes inner q.lexemes (fun k => k.Below 1 ∧ k ≠ .symbol .pipe)
      (·.bare = q.flat)) :
    Takes (closedPattern p inner) (tupleLexemes (patternLexemes items)) (fun _ => True)
      (·.bare = .sequence (flatPatterns items)) := by
  have hlegible := patternsHold_iff.mp hitems
  have hcomma : Lexeme.Below 1 (.symbol .comma) ∧ Lexeme.symbol .comma ≠ .symbol .pipe := by decide
  have hparen : Lexeme.Below 1 (.symbol .rightParen) ∧ Lexeme.symbol .rightParen ≠ .symbol .pipe := by
    decide
  have hall : TakesAll inner (· ≠ .symbol .rightParen) (fun k => k.Below 1 ∧ k ≠ .symbol .pipe)
      (fun q a => a.bare = q.flat) items (patternLexemes items) := by
    rw [patternLexemes_eq_map, TakesAll, List.forall₂_map_right_iff, List.forall₂_same]
    exact fun q hq => ⟨h q hq, q.lexemes_head (hlegible q hq)⟩
  have hbares {as : List Pattern} (has : List.Forall₂ (fun q a => a.bare = q.flat) items as) :
      (Pattern.sequence as).bare = .sequence (flatPatterns items) := by
    rw [Pattern.bare, flatPatterns_eq_map, barePatterns_eq_of_forall₂ has]
  -- The comma after a single item tells it from an item in parentheses.
  have hread : ∃ ks, tupleLexemes (patternLexemes items) = bracketed .leftParen .rightParen ks ∧
      ∀ n, ks.length < n → Takes (itemsBefore .rightParen inner n) ks (· = .symbol .rightParen)
        (fun read => List.Forall₂ (fun q a => a.bare = q.flat) items read.1 ∧
          (read.1.length = 1 → read.2 = true)) := by
    match items, hall, hlegible, h with
    | [], hall, _, _ =>
      refine ⟨[], rfl, fun n hn => ?_⟩
      exact (takes_itemsBefore hcomma hparen hall (by decide) n hn).mono (fun _ hk => hk)
        fun read hread => ⟨hread.1, fun hone => by
          rw [← hread.1.length_eq] at hone
          exact absurd hone (by decide)⟩
    | [q], _, hlegible, h =>
      refine ⟨q.lexemes ++ [.symbol .comma], rfl, fun n hn => ?_⟩
      obtain ⟨m, rfl⟩ := Nat.exists_eq_add_of_le' (show 2 ≤ n by
        obtain ⟨k, hk, -⟩ := q.lexemes_head (hlegible q List.mem_cons_self)
        obtain ⟨ks, hks⟩ := List.head?_eq_some_iff.mp hk
        rw [hks] at hn
        simp only [List.length_cons, List.length_append] at hn
        omega)
      refine (takes_itemsBefore_trail hcomma (h q List.mem_cons_self)
        (q.lexemes_head (hlegible q List.mem_cons_self)) m).mono (fun _ hk => hk) ?_
      rintro read ⟨a, rfl, ha⟩
      exact ⟨.cons ha .nil, fun _ => rfl⟩
    | q :: q' :: items, hall, hlegible, _ =>
      refine ⟨separated (patternLexemes (q :: q' :: items)), rfl, fun n hn => ?_⟩
      have hlength : (q :: q' :: items).length < n := by
        obtain ⟨k, hk, -⟩ := q.lexemes_head (hlegible q List.mem_cons_self)
        obtain ⟨ks, hks⟩ := List.head?_eq_some_iff.mp hk
        have hle := length_le_preceded .comma (patternLexemes (q' :: items))
        rw [patternLexemes, separated_cons, hks, List.length_append, List.length_cons] at hn
        rw [patternLexemes_eq_map, List.length_map] at hle
        rw [patternLexemes_eq_map] at hn
        rw [List.length_cons]
        omega
      exact (takes_itemsBefore hcomma hparen hall (by decide) n hlength).mono (fun _ hk => hk)
        fun read hread => ⟨hread.1, fun _ => hread.2.trans (by simp)⟩
  obtain ⟨ks, hks, htakes⟩ := hread
  rw [hks]
  intro n ts rest hts hn hrest
  obtain ⟨span, us, rfl, hus⟩ := opening_token hts
  obtain ⟨vs, ws, rfl, hvs, hws⟩ := split_tokens hus
  obtain ⟨w, ws, rfl, hw, hws'⟩ := cons_tokens hws
  obtain rfl : ws = [] := List.map_eq_nil_iff.mp hws'
  simp only [List.length_cons, List.length_append] at hn
  have hlength : ks.length < n := by
    rw [← hvs, List.length_map]
    omega
  obtain ⟨⟨as, flag⟩, hread, has, hflag⟩ := htakes n hlength n vs (w :: rest) hvs (by omega)
    (stops_cons hw rfl)
  refine ⟨.sequence as, ?_, hbares has⟩
  rw [List.cons_append, List.append_assoc]
  refine Reads.bind Reads.peekToken (Reads.bind (Reads.advance (by simp)) ?_)
  refine Reads.bind (Reads.bounded hread) (Reads.bind (Reads.expect hw hrest.ne_nil _) ?_)
  match as, hflag with
  | [a], hflag =>
    obtain rfl : flag = true := hflag rfl
    exact Reads.pure _
  | [], _ | _ :: _ :: _, _ => exact Reads.pure _

mutual

/-- Each alternative of a legible pattern is read as itself. -/
theorem Pattern.takes_options (q : Pattern) (hq : q.Holds Constant.LegiblePattern) : ∀ o ∈ q.options, ∀ d,
    o.lexemes.length ≤ d + 1 →
      Takes (closedPattern p (patternWithin p d)) o.lexemes (Lexeme.Below 1) (·.bare = o.flat) := by
  match q, hq with
  | .wildcard, _ =>
    intro o ho d _ n ts rest hts hn hrest
    obtain rfl := List.mem_singleton.mp ho
    obtain ⟨⟨kind, span⟩, us, rfl, rfl, hus⟩ := cons_tokens hts
    obtain rfl : us = [] := List.map_eq_nil_iff.mp hus
    refine ⟨.wildcard, ?_, rfl⟩
    refine Reads.bind Reads.peekToken (Reads.bind Reads.peekSecond ?_)
    exact Reads.bind (Reads.advance hrest.ne_nil) (Reads.pure _)
  | .capture name, hq =>
    intro o ho d _ n ts rest hts hn hrest
    obtain rfl := List.mem_singleton.mp ho
    obtain ⟨⟨kind, span⟩, us, rfl, rfl, hus⟩ := cons_tokens hts
    obtain rfl : us = [] := List.map_eq_nil_iff.mp hus
    obtain ⟨t, rest, rfl, ht⟩ := hrest
    have hdot : ¬ some t.kind = some (.symbol .dot) := by
      intro heq
      rw [Option.some.inj heq] at ht
      exact absurd ht (by decide)
    refine ⟨.capture name, ?_, rfl⟩
    refine Reads.bind Reads.peekToken (Reads.bind Reads.peekSecond ?_)
    refine Reads.bind (Reads.advance (by simp)) ?_
    rw [if_neg hq.2]
    exact (if_neg hdot) ▸ Reads.pure _
  | .value expr, hq =>
    intro o ho d _
    obtain rfl := List.mem_singleton.mp ho
    match expr, hq with
    | .constant c span, hq => exact takes_constant hq span
    | .member target field span, hq => exact takes_dotted hq.1 span
  | .sequence items, hq =>
    intro o ho d hd
    obtain rfl := List.mem_singleton.mp ho
    have hdepth : ∀ q ∈ items, q.lexemes.length + 1 ≤ d := by
      intro q hmem
      have hitem : q.lexemes ∈ patternLexemes items := by
        rw [patternLexemes_eq_map]
        exact List.mem_map_of_mem hmem
      have hle := length_le_tupleLexemes hitem
      rw [Pattern.lexemes] at hd
      omega
    have hoptions := Patterns.takes_options items hq
    refine (takes_sequence hq fun q hmem => ?_).mono (fun _ _ => trivial) fun _ ha => ha
    have hlegible := patternsHold_iff.mp hq q hmem
    obtain ⟨d, rfl⟩ := Nat.exists_eq_add_one_of_ne_zero (show d ≠ 0 by
      have := hdepth q hmem
      omega)
    refine takes_within hlegible fun o ho => hoptions q hmem o ho d ?_
    have hle := Pattern.length_options hlegible ho
    have := hdepth q hmem
    omega
  | .alternatives options, hq =>
    intro o ho
    rw [Pattern.options, allOptions_eq_flatMap] at ho
    obtain ⟨q, hmem, ho⟩ := List.mem_flatMap.mp ho
    exact Patterns.takes_options options hq.2 q hmem o ho

/-- Each alternative of legible patterns is read as itself. -/
theorem Patterns.takes_options (patterns : List Pattern) (h : PatternsHold Constant.LegiblePattern patterns) :
    ∀ q ∈ patterns, ∀ o ∈ q.options, ∀ d, o.lexemes.length ≤ d + 1 →
      Takes (closedPattern p (patternWithin p d)) o.lexemes (Lexeme.Below 1) (·.bare = o.flat) := by
  match patterns, h with
  | [], _ => exact fun _ h => absurd h List.not_mem_nil
  | q :: patterns, h =>
    have hfirst := Pattern.takes_options q h.1
    have hothers := Patterns.takes_options patterns h.2
    intro q' hq'
    rcases List.mem_cons.mp hq' with rfl | hq'
    · exact hfirst
    · exact hothers q' hq'

end

theorem takes_casePattern {q : Pattern} (hq : q.Holds Constant.LegiblePattern) :
    Takes (casePattern p) q.lexemes
      (fun k => k.Below 1 ∧ k ≠ .symbol .pipe ∧ k ≠ .symbol .comma) (·.bare = q.flat) := by
  intro n ts rest hts hn hrest
  obtain ⟨d, rfl⟩ := Nat.exists_eq_add_one_of_ne_zero (show n ≠ 0 by omega)
  have hlength : q.lexemes.length ≤ d := by
    rw [← hts, List.length_map]
    omega
  have hwithin := takes_within (p := p) (d := d) hq fun o ho => by
    apply q.takes_options hq o ho d
    have hle := Pattern.length_options hq ho
    omega
  obtain ⟨a, hread, ha⟩ := hwithin (d + 1) ts rest hts hn
    (hrest.mono fun _ hk => ⟨hk.1, hk.2.1⟩)
  obtain ⟨t, rest, rfl, -, -, ht⟩ := hrest
  refine ⟨a, ?_, ha⟩
  refine Reads.bind (Reads.bounded hread) (Reads.bind (Reads.isAt _) ?_)
  rw [decide_eq_false ht]
  exact Reads.pure a

end StagedScript.Syntax
