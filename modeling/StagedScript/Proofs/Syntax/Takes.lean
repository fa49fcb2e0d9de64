import Mathlib.Data.List.Forall2
import StagedScript.Proofs.Syntax.Lexemes

/-!
# What parsers take

A parser reads a value from the front of a token list and leaves the rest.  It
takes lexemes if it does so for all tokens of these kinds, before a rest that
starts with a token of which it makes no use.
-/

namespace StagedScript.Syntax.Parser

open Text

variable {α β : Type} {n : Nat} {ts mid rest : List Token} {t : Token}

/-- The parser reads the value from the front of the tokens and leaves the rest. -/
def Reads (x : Parser α) (n : Nat) (ts : List Token) (a : α) (rest : List Token) : Prop :=
  x n ts = .ok (a, rest)

namespace Reads

theorem pure (a : α) : Reads (Pure.pure a) n ts a ts := rfl

theorem bind_eq {x : Parser α} {f : α → Parser β} {a : α} (hx : Reads x n ts a mid) :
    (x >>= f) n ts = f a n mid := by
  show (x n ts >>= fun r => f r.1 n r.2) = f a n mid
  rw [show x n ts = .ok (a, mid) from hx]
  rfl

theorem bind {x : Parser α} {f : α → Parser β} {a : α} {b : β} (hx : Reads x n ts a mid)
    (hf : Reads (f a) n mid b rest) : Reads (x >>= f) n ts b rest := by
  rw [Reads, bind_eq hx]
  exact hf

theorem map {x : Parser α} {f : α → β} {a : α} (hx : Reads x n ts a rest) :
    Reads (f <$> x) n ts (f a) rest := by
  show (x n ts >>= fun r => Pure.pure (f r.1, r.2)) = Except.ok (f a, rest)
  rw [show x n ts = .ok (a, rest) from hx]
  rfl

theorem lift {x : Except SyntaxFault α} {a : α} (hx : x = .ok a) :
    Reads (liftM x : Parser α) n ts a ts := by
  subst hx
  rfl

theorem bounded {x : Nat → Parser α} {a : α} (hx : Reads (x n) n ts a rest) :
    Reads (Parser.bounded x) n ts a rest :=
  hx

theorem peekToken : Reads Parser.peekToken n (t :: ts) t (t :: ts) := rfl

theorem peek : Reads Parser.peek n (t :: ts) t.kind (t :: ts) := rfl

theorem peekSecond : Reads Parser.peekSecond n (t :: ts) (ts.head?.map (·.kind)) (t :: ts) := rfl

theorem advance (hne : rest ≠ []) : Reads Parser.advance n (t :: rest) t rest := by
  cases rest with
  | nil => exact absurd rfl hne
  | cons u rest => rfl

theorem isAt (k : Lexeme) :
    Reads (Parser.isAt k) n (t :: ts) (decide (t.kind = k)) (t :: ts) := rfl

theorem accept_true {k : Lexeme} (hk : t.kind = k) (hne : rest ≠ []) :
    Reads (Parser.accept k) n (t :: rest) true rest := by
  refine bind (isAt k) ?_
  rw [decide_eq_true hk]
  exact bind (advance hne) (pure true)

theorem accept_false {k : Lexeme} (hk : t.kind ≠ k) :
    Reads (Parser.accept k) n (t :: ts) false (t :: ts) := by
  refine bind (isAt k) ?_
  rw [decide_eq_false hk]
  exact pure false

theorem expect {k : Lexeme} (hk : t.kind = k) (hne : rest ≠ []) (expected : String) :
    Reads (Parser.expect k expected) n (t :: rest) t rest := by
  refine bind (isAt k) ?_
  rw [decide_eq_true hk]
  exact advance hne

theorem expectSymbol {sign : Symbol} (hk : t.kind = .symbol sign) (hne : rest ≠ []) :
    Reads (Parser.expectSymbol sign) n (t :: rest) () rest :=
  bind (expect hk hne _) (pure ())

theorem identifier {name : String} (hk : t.kind = .identifier name) (hne : rest ≠ [])
    (expected : String) :
    Reads (Parser.identifier expected) n (t :: rest) (name, t.span) rest := by
  refine bind peek ?_
  rw [hk]
  exact bind (advance hne) (pure (name, t.span))

end Reads

def Stops (stop : Lexeme → Prop) (ts : List Token) : Prop :=
  ∃ t ts', ts = t :: ts' ∧ stop t.kind

theorem Stops.ne_nil {stop : Lexeme → Prop} (h : Stops stop ts) : ts ≠ [] := by
  obtain ⟨t, ts', rfl, -⟩ := h
  exact List.cons_ne_nil t ts'

theorem Stops.mono {stop stop' : Lexeme → Prop} (hstop : ∀ k, stop k → stop' k)
    (h : Stops stop ts) : Stops stop' ts := by
  obtain ⟨t, ts', rfl, ht⟩ := h
  exact ⟨t, ts', rfl, hstop _ ht⟩

/-- The parser takes tokens of the given kinds before a rest that starts as `stop` says, and reads
a value with the property. -/
def Takes (x : Parser α) (ks : List Lexeme) (stop : Lexeme → Prop) (Q : α → Prop) : Prop :=
  ∀ n ts rest, ts.map Token.kind = ks → ts.length < n → Stops stop rest →
    ∃ a, Reads x n (ts ++ rest) a rest ∧ Q a

theorem Takes.mono {x : Parser α} {ks : List Lexeme} {stop stop' : Lexeme → Prop}
    {Q Q' : α → Prop} (hstop : ∀ k, stop' k → stop k) (hQ : ∀ a, Q a → Q' a)
    (h : Takes x ks stop Q) : Takes x ks stop' Q' := by
  intro n ts rest hts hn hrest
  obtain ⟨a, hread, ha⟩ := h n ts rest hts hn (hrest.mono hstop)
  exact ⟨a, hread, hQ a ha⟩

/-- Tokens whose kinds are two lists put together are two lists put together. -/
theorem split_tokens {ks ks' : List Lexeme} (h : ts.map Token.kind = ks ++ ks') :
    ∃ us vs, ts = us ++ vs ∧ us.map Token.kind = ks ∧ vs.map Token.kind = ks' :=
  List.map_eq_append_iff.mp h

theorem cons_tokens {k : Lexeme} {ks : List Lexeme} (h : ts.map Token.kind = k :: ks) :
    ∃ u us, ts = u :: us ∧ u.kind = k ∧ us.map Token.kind = ks :=
  List.map_eq_cons_iff.mp h

/-- One token starts the rest. -/
theorem stops_cons {stop : Lexeme → Prop} {k : Lexeme} (hk : t.kind = k) (hstop : stop k) :
    Stops stop (t :: ts) :=
  ⟨t, ts, rfl, hk ▸ hstop⟩

/-- An expression and what extends it. -/
def extended (first : Parser Expr) (extend : Expr → Parser (Option Expr)) : Parser Expr := do
  let start ← first
  bounded fun n => extendAll extend n start

/-- After lexemes the loop that extends an expression goes on with what was read of them. -/
def Loops (first : Parser Expr) (extend : Expr → Parser (Option Expr)) (ks : List Lexeme)
    (stop : Lexeme → Prop) (Q : Expr → Prop) : Prop :=
  ∀ n ts rest, ts.map Token.kind = ks → ts.length < n → Stops stop rest →
    ∃ a m, extended first extend n (ts ++ rest) = extendAll extend m a n rest ∧
      n ≤ m + ts.length ∧ Q a

section Loops

variable {first : Parser Expr} {extend : Expr → Parser (Option Expr)} {ks ks' : List Lexeme}
  {stop stop' : Lexeme → Prop} {Q Q' : Expr → Prop}

theorem Takes.loops (h : Takes first ks stop Q) : Loops first extend ks stop Q := by
  intro n ts rest hts hn hrest
  obtain ⟨a, hread, ha⟩ := h n ts rest hts hn hrest
  exact ⟨a, n, hread.bind_eq, Nat.le_add_right n _, ha⟩

theorem Loops.step (h : Loops first extend ks stop Q)
    (hstop : ∃ k ∈ ks'.head?, stop k)
    (hextend : ∀ a, Q a → Takes (extend a) ks' stop' fun longer => ∃ b, longer = some b ∧ Q' b) :
    Loops first extend (ks ++ ks') stop' Q' := by
  intro n ts rest hts hn hrest
  obtain ⟨us, vs, rfl, hus, hvs⟩ := split_tokens hts
  obtain ⟨k, hhead, hk⟩ := hstop
  obtain ⟨ks'', rfl⟩ := List.head?_eq_some_iff.mp hhead
  obtain ⟨v, vs', rfl, hv, -⟩ := cons_tokens hvs
  rw [List.length_append] at hn
  obtain ⟨a, m, hrun, hm, ha⟩ := h n us (v :: vs' ++ rest) hus (by omega) (stops_cons hv hk)
  obtain ⟨longer, hread, b, rfl, hb⟩ := hextend a ha n (v :: vs') rest hvs (by omega) hrest
  have hpos : 0 < m := by
    rw [List.length_cons] at hn
    omega
  obtain ⟨m, rfl⟩ := Nat.exists_eq_add_one_of_ne_zero (Nat.ne_of_gt hpos)
  refine ⟨b, m, ?_, ?_, hb⟩
  · rw [List.append_assoc, hrun]
    exact hread.bind_eq
  · rw [List.length_append, List.length_cons]
    omega

theorem Loops.takes (h : Loops first extend ks stop Q)
    (hend : ∀ a n rest, Q a → Stops stop rest → Reads (extend a) n rest none rest) :
    Takes (extended first extend) ks stop Q := by
  intro n ts rest hts hn hrest
  obtain ⟨a, m, hrun, hm, ha⟩ := h n ts rest hts hn hrest
  obtain ⟨m, rfl⟩ := Nat.exists_eq_add_one_of_ne_zero (show m ≠ 0 by omega)
  have hread : Reads (extendAll extend (m + 1) a) n rest a rest :=
    Reads.bind (hend a n rest ha hrest) (Reads.pure a)
  exact ⟨a, hrun.trans hread, ha⟩

end Loops

/-! ## Lists -/

/-- Lists of lexemes, each with a separator in front. -/
def preceded (sign : Symbol) (kss : List (List Lexeme)) : List Lexeme :=
  kss.flatMap fun ks => .symbol sign :: ks

theorem intercalate_symbol (sign : Symbol) (ks : List Lexeme) (kss : List (List Lexeme)) :
    [Lexeme.symbol sign].intercalate (ks :: kss) = ks ++ preceded sign kss := by
  induction kss generalizing ks with
  | nil => simp [preceded]
  | cons ks' kss ih =>
    rw [List.intercalate_cons_cons, ih ks']
    simp [preceded]

theorem separated_cons (ks : List Lexeme) (kss : List (List Lexeme)) :
    separated (ks :: kss) = ks ++ preceded .comma kss :=
  intercalate_symbol .comma ks kss

section Lists

variable {item : Parser β} {bs : List α} {kss : List (List Lexeme)} {Q : α → β → Prop}
  {stop : Lexeme → Prop}

/-- Items that each take lexemes of their own, of which the first one satisfies `starts`. -/
def TakesAll (item : Parser β) (starts stop : Lexeme → Prop) (Q : α → β → Prop) (bs : List α)
    (kss : List (List Lexeme)) : Prop :=
  List.Forall₂ (fun b ks => Takes item ks stop (Q b) ∧ ∃ k ∈ ks.head?, starts k) bs kss

theorem takes_itemsAfter {sign : Symbol} {starts : Lexeme → Bool} (hsign : stop (.symbol sign))
    (h : TakesAll item (starts · = true) stop Q bs kss) :
    ∀ m, bs.length < m → Takes (itemsAfter sign starts item m) (preceded sign kss)
      (fun k => stop k ∧ k ≠ .symbol sign) (List.Forall₂ Q bs) := by
  induction h with
  | nil =>
    intro m hm n ts rest hts hn hrest
    obtain ⟨m, rfl⟩ := Nat.exists_eq_add_one_of_ne_zero (show m ≠ 0 by omega)
    obtain rfl : ts = [] := List.map_eq_nil_iff.mp hts
    obtain ⟨t, ts', rfl, -, ht⟩ := hrest
    exact ⟨[], Reads.bind (Reads.accept_false ht) (Reads.pure []), .nil⟩
  | @cons b ks bs kss hb _ ih =>
    intro m hm n ts rest hts hn hrest
    obtain ⟨m, rfl⟩ := Nat.exists_eq_add_one_of_ne_zero (show m ≠ 0 by omega)
    rw [List.length_cons] at hm
    obtain ⟨t, us, rfl, ht, hus⟩ := cons_tokens hts
    obtain ⟨vs, ws, rfl, hvs, hws⟩ := split_tokens hus
    simp only [List.length_cons, List.length_append] at hn
    obtain ⟨k, hhead, hk⟩ := hb.2
    obtain ⟨ks', rfl⟩ := List.head?_eq_some_iff.mp hhead
    obtain ⟨v, vs, rfl, hv, hvs'⟩ := cons_tokens hvs
    have hnext : Stops stop (ws ++ rest) := by
      cases kss with
      | nil =>
        obtain rfl : ws = [] := List.map_eq_nil_iff.mp hws
        exact hrest.mono fun k hk => hk.1
      | cons ks kss =>
        obtain ⟨w, ws, rfl, hw, -⟩ := cons_tokens hws
        exact stops_cons hw hsign
    obtain ⟨a, hread, ha⟩ := hb.1 n (v :: vs) (ws ++ rest) hvs (by omega) hnext
    obtain ⟨as, hreads, has⟩ := ih m (by omega) n ws rest hws (by omega) hrest
    refine ⟨a :: as, ?_, .cons ha has⟩
    rw [List.cons_append, List.append_assoc]
    refine Reads.bind (Reads.accept_true ht (by simp)) ?_
    refine Reads.bind Reads.peek ?_
    rw [hv, hk]
    exact Reads.bind hread (Reads.bind hreads (Reads.pure (a :: as)))

/-- A separator without an item after it ends the list. -/
theorem takes_itemsAfter_trail {sign : Symbol} {starts : Lexeme → Bool} (m : Nat) :
    Takes (itemsAfter sign starts item (m + 1)) [.symbol sign] (fun k => starts k = false)
      (· = []) := by
  intro n ts rest hts hn hrest
  obtain ⟨t, us, rfl, ht, hus⟩ := cons_tokens hts
  obtain rfl : us = [] := List.map_eq_nil_iff.mp hus
  obtain ⟨u, rest, rfl, hu⟩ := hrest
  refine ⟨[], ?_, rfl⟩
  refine Reads.bind (Reads.accept_true ht (by simp)) ?_
  refine Reads.bind Reads.peek ?_
  rw [hu]
  exact Reads.pure []

theorem takes_itemsBefore {sign : Symbol} (hcomma : stop (.symbol .comma))
    (hstop : stop (.symbol sign)) (h : TakesAll item (· ≠ .symbol sign) stop Q bs kss)
    (hsign : sign ≠ .comma) :
    ∀ m, bs.length < m → Takes (itemsBefore sign item m) (separated kss) (· = .symbol sign)
      (fun read => List.Forall₂ Q bs read.1 ∧ read.2 = decide (2 ≤ bs.length)) := by
  induction h with
  | nil =>
    intro m hm n ts rest hts hn hrest
    obtain ⟨m, rfl⟩ := Nat.exists_eq_add_one_of_ne_zero (show m ≠ 0 by omega)
    obtain rfl : ts = [] := List.map_eq_nil_iff.mp hts
    obtain ⟨t, rest, rfl, ht⟩ := hrest
    refine ⟨([], false), ?_, .nil, rfl⟩
    refine Reads.bind (Reads.isAt _) ?_
    rw [ht, decide_eq_true rfl]
    exact Reads.pure ([], false)
  | @cons b ks bs kss hb hbs ih =>
    intro m hm n ts rest hts hn hrest
    obtain ⟨m, rfl⟩ := Nat.exists_eq_add_one_of_ne_zero (show m ≠ 0 by omega)
    rw [List.length_cons] at hm
    rw [separated_cons] at hts
    obtain ⟨us, vs, rfl, hus, hvs⟩ := split_tokens hts
    rw [List.length_append] at hn
    obtain ⟨k, hhead, hk⟩ := hb.2
    obtain ⟨ks', rfl⟩ := List.head?_eq_some_iff.mp hhead
    obtain ⟨u, us, rfl, hu, hus'⟩ := cons_tokens hus
    have hfirst : u.kind ≠ .symbol sign := hu ▸ hk
    cases hbs with
    | nil =>
      obtain rfl : vs = [] := List.map_eq_nil_iff.mp hvs
      obtain ⟨t, rest, rfl, ht⟩ := hrest
      obtain ⟨a, hread, ha⟩ := hb.1 n (u :: us) (t :: rest) hus (by omega)
        (stops_cons ht hstop)
      have hnot : t.kind ≠ .symbol .comma := by
        rw [ht]
        exact fun h => hsign (Lexeme.symbol.inj h)
      refine ⟨([a], false), ?_, .cons ha .nil, rfl⟩
      rw [List.append_nil]
      refine Reads.bind (Reads.isAt _) ?_
      rw [decide_eq_false hfirst]
      exact Reads.bind hread (Reads.bind (Reads.accept_false hnot) (Reads.pure ([a], false)))
    | @cons b' ks'' bs kss hb' hbs =>
      obtain ⟨v, vs, rfl, hv, hvs'⟩ := cons_tokens hvs
      have hrest' : vs.map Token.kind = separated (ks'' :: kss) := by
        rw [separated_cons]
        exact hvs'
      obtain ⟨a, hread, ha⟩ := hb.1 n (u :: us) (v :: vs ++ rest) hus (by omega)
        (stops_cons hv hcomma)
      simp only [List.length_cons] at hn
      obtain ⟨⟨as, flag⟩, hreads, has, -⟩ := ih m (by omega) n vs rest hrest' (by omega) hrest
      have hne : vs ++ rest ≠ [] := by
        obtain ⟨t, rest, rfl, -⟩ := hrest
        simp
      refine ⟨(a :: as, true), ?_, .cons ha has, by simp⟩
      rw [List.append_assoc]
      refine Reads.bind (Reads.isAt _) ?_
      rw [decide_eq_false hfirst]
      exact Reads.bind hread (Reads.bind (Reads.accept_true hv hne)
        (Reads.bind hreads (Reads.pure (a :: as, true))))

/-- A single item with a comma after it. -/
theorem takes_itemsBefore_trail {sign : Symbol} {ks : List Lexeme} {R : β → Prop}
    (hcomma : stop (.symbol .comma)) (h : Takes item ks stop R)
    (hfirst : ∃ k ∈ ks.head?, k ≠ .symbol sign) (m : Nat) :
    Takes (itemsBefore sign item (m + 2)) (ks ++ [.symbol .comma]) (· = .symbol sign)
      (fun read => ∃ a, read = ([a], true) ∧ R a) := by
  intro n ts rest hts hn hrest
  obtain ⟨us, vs, rfl, hus, hvs⟩ := split_tokens hts
  obtain ⟨v, vs, rfl, hv, hvs'⟩ := cons_tokens hvs
  obtain rfl : vs = [] := List.map_eq_nil_iff.mp hvs'
  rw [List.length_append] at hn
  obtain ⟨k, hhead, hk⟩ := hfirst
  obtain ⟨ks', rfl⟩ := List.head?_eq_some_iff.mp hhead
  obtain ⟨u, us, rfl, hu, hus'⟩ := cons_tokens hus
  have hnot : u.kind ≠ .symbol sign := hu ▸ hk
  obtain ⟨a, hread, ha⟩ := h n (u :: us) (v :: rest) hus (by omega) (stops_cons hv hcomma)
  obtain ⟨t, rest, rfl, ht⟩ := hrest
  have hend : Reads (itemsBefore sign item (m + 1)) n (t :: rest) ([], false) (t :: rest) := by
    refine Reads.bind (Reads.isAt _) ?_
    rw [decide_eq_true ht]
    exact Reads.pure _
  refine ⟨([a], true), ?_, a, rfl, ha⟩
  rw [List.append_assoc]
  refine Reads.bind (Reads.isAt _) ?_
  rw [decide_eq_false hnot]
  refine Reads.bind hread (Reads.bind (Reads.accept_true hv (by simp)) ?_)
  exact Reads.bind hend (Reads.pure _)

theorem length_le_preceded (sign : Symbol) (kss : List (List Lexeme)) :
    kss.length ≤ (preceded sign kss).length := by
  induction kss with
  | nil => simp
  | cons ks kss ih =>
    simp only [preceded, List.flatMap_cons, List.length_append, List.length_cons] at ih ⊢
    omega

/-- Items up to a closing bracket are all taken. -/
theorem takes_itemsUntil (sign : Symbol) (hcomma : stop (.symbol .comma))
    (hstop : stop (.symbol sign)) (h : TakesAll item (· ≠ .symbol sign) stop Q bs kss)
    (hsign : sign ≠ .comma) :
    Takes (itemsUntil sign item) (separated kss ++ [.symbol sign]) (fun _ => True)
      (List.Forall₂ Q bs) := by
  intro n ts rest hts hn hrest
  obtain ⟨us, vs, rfl, hus, hvs⟩ := split_tokens hts
  obtain ⟨v, vs, rfl, hv, hvs'⟩ := cons_tokens hvs
  obtain rfl : vs = [] := List.map_eq_nil_iff.mp hvs'
  have hlength : bs.length ≤ us.length := by
    have hkinds : (us.map Token.kind).length = us.length := List.length_map Token.kind
    rw [← hkinds, hus, List.Forall₂.length_eq h]
    cases kss with
    | nil => simp
    | cons ks kss =>
      have hfirst : ks ≠ [] := by
        cases h with
        | cons hb _ =>
          obtain ⟨k, hk, -⟩ := hb.2
          rintro rfl
          simp at hk
      have hpos := List.length_pos_iff.mpr hfirst
      have hothers := length_le_preceded .comma kss
      rw [separated_cons, List.length_append, List.length_cons]
      omega
  rw [List.length_append] at hn
  obtain ⟨⟨as, flag⟩, hreads, has, -⟩ := takes_itemsBefore hcomma hstop h hsign n (by omega) n us
    (v :: rest) hus (by omega) (stops_cons hv rfl)
  refine ⟨as, ?_, has⟩
  rw [List.append_assoc]
  exact Reads.bind (Reads.bounded hreads)
    (Reads.bind (Reads.expectSymbol hv hrest.ne_nil) (Reads.pure as))

end Lists

end StagedScript.Syntax.Parser
