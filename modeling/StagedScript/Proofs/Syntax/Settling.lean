import StagedScript.Proofs.Syntax.Budget

/-!
# Parsers with budgets that suffice

A parser settles if, with budgets that suffice, its outcome is not that a budget
ran out and stays the same with larger ones, and what it leaves is a shorter end
of its tokens.  Since what was taken no longer counts, the budgets also suffice
for what follows, and rounds of a repetition that each take a token are enough.
-/

namespace StagedScript.Syntax

open Text

theorem Complete.length_pos {admits : Lexeme → Prop} {ts : List Token} (h : Complete admits ts) :
    0 < ts.length := by
  cases h <;> exact Nat.succ_pos _

namespace Parser

variable {α β : Type}

/-- Both runs have the same outcome.  No budget ran out, and the tokens that are left are the
complete end of those that were there, shorter by what the value takes. -/
inductive Settled (taken : α → Nat) (ts : List Token) :
    Except SyntaxFault (α × List Token) → Except SyntaxFault (α × List Token) → Prop
  | ok {a : α} {rest : List Token} (complete : Complete anyHead rest) (left : rest <:+ ts)
      (fits : rest.length + taken a ≤ ts.length) : Settled taken ts (.ok (a, rest)) (.ok (a, rest))
  | error {e : SyntaxFault} (inside : e ≠ .exhausted) : Settled taken ts (.error e) (.error e)

/-- The two parsers settle on complete tokens of which the first is among `heads`, no more than
`s` and with no more load than `m`, if there are more rounds than tokens. -/
def Settles (heads : Lexeme → Prop) (s m : Nat) (taken : α → Nat) (x y : Parser α) : Prop :=
  ∀ n n' ts, Complete anyHead ts → (∀ t ∈ ts.head?, heads t.kind) → ts.length ≤ s → load ts ≤ m →
    ts.length < n → ts.length < n' → Settled taken ts (x n ts) (y n' ts)

theorem Settled.mono {taken taken' : α → Nat} {ts : List Token}
    {out out' : Except SyntaxFault (α × List Token)} (h : Settled taken ts out out')
    (hle : ∀ a, taken' a ≤ taken a) : Settled taken' ts out out' := by
  cases h with
  | ok complete left fits =>
    exact .ok complete left (Nat.le_trans (Nat.add_le_add_left (hle _) _) fits)
  | error inside => exact .error inside

/-- The outcome with one more token in front. -/
theorem Settled.cons {taken : α → Nat} {t : Token} {ts : List Token}
    {out out' : Except SyntaxFault (α × List Token)}
    (h : Settled (fun a => taken a - 1) ts out out') : Settled taken (t :: ts) out out' := by
  cases h with
  | ok complete left fits =>
    refine .ok complete (left.trans (List.suffix_cons t ts)) ?_
    rw [List.length_cons]
    omega
  | error inside => exact .error inside

namespace Settles

variable {heads heads' : Lexeme → Prop} {s s' m m' : Nat} {taken : α → Nat} {taken' : β → Nat}
  {x y : Parser α} {f g : α → Parser β}

/-- There are no complete tokens without a token. -/
theorem of_no_tokens (hs : s ≤ 0) : Settles heads s m taken x y :=
  fun _ _ _ hts _ hle _ _ _ => absurd hts.length_pos (by omega)

theorem of_no_load (hm : m ≤ 0) : Settles heads s m taken x y := by
  intro _ _ ts hts _ _ hle _ _
  have := hts.length_pos
  have := length_le_load ts
  omega

theorem mono {taken₂ : α → Nat} (h : Settles heads s m taken x y)
    (hheads : ∀ k, heads' k → heads k) (hs : s' ≤ s) (hm : m' ≤ m)
    (htaken : ∀ a, taken₂ a ≤ taken a) : Settles heads' s' m' taken₂ x y :=
  fun n n' ts hts hhead hle hload hn hn' =>
    (h n n' ts hts (fun t ht => hheads _ (hhead t ht)) (Nat.le_trans hle hs)
      (Nat.le_trans hload hm) hn hn').mono htaken

/-- The same parsers with fewer tokens or fewer heads. -/
theorem restrict (h : Settles anyHead s m taken x y) (hs : s' ≤ s) (hm : m' ≤ m) :
    Settles heads s' m' taken x y :=
  h.mono (fun _ _ => trivial) hs hm fun _ => Nat.le_refl _

theorem pure {a : α} (htaken : taken a = 0) : Settles heads s m taken (pure a) (pure a) :=
  fun _ _ _ hts _ _ _ _ _ => .ok hts (List.suffix_refl _) (by rw [htaken]; exact Nat.le_refl _)

theorem throw {e : SyntaxFault} (he : e ≠ .exhausted) :
    Settles heads s m taken (throw e) (throw e) :=
  fun _ _ _ _ _ _ _ _ _ => .error he

theorem invalid (defect : Defect) (span : Span) :
    Settles heads s m taken (invalid defect span) (invalid defect span) :=
  throw SyntaxFault.noConfusion

theorem unexpected (expected : String) :
    Settles heads s m taken (unexpected expected) (unexpected expected) :=
  fun _ _ _ _ _ _ _ _ _ => .error SyntaxFault.noConfusion

/-- What is read without tokens. -/
theorem lift {x : Except SyntaxFault α} (hx : x ≠ .error .exhausted) (htaken : ∀ a, taken a = 0) :
    Settles heads s m taken (liftM x : Parser α) (liftM x) := by
  cases x with
  | error e => exact throw fun he => hx (congrArg Except.error he)
  | ok a => exact pure (htaken a)

theorem bind (hx : Settles heads s m taken x y)
    (hf : ∀ a, Settles anyHead (s - taken a) (m - taken a) (fun b => taken' b - taken a) (f a)
      (g a)) : Settles heads s m taken' (x >>= f) (y >>= g) := by
  intro n n' ts hts hhead hs hm hn hn'
  have hout := hx n n' ts hts hhead hs hm hn hn'
  show Settled taken' ts (x n ts >>= fun r => f r.1 n r.2) (y n' ts >>= fun r => g r.1 n' r.2)
  revert hout
  generalize x n ts = out
  generalize y n' ts = out'
  intro hout
  cases hout with
  | error inside => exact .error inside
  | @ok a rest complete left fits =>
    have hload := load_suffix left
    have hnext := hf a n n' rest complete (fun _ _ => trivial) (by omega) (by omega) (by omega)
      (by omega)
    show Settled taken' ts (f a n rest) (g a n' rest)
    revert hnext
    generalize f a n rest = last
    generalize g a n' rest = last'
    intro hnext
    cases hnext with
    | error inside => exact .error inside
    | ok complete' left' fits' => exact .ok complete' (left'.trans left) (by omega)

/-- A repetition has enough rounds if they are as many as there are tokens. -/
theorem bounded {x y : Nat → Parser α}
    (h : ∀ n n' s', s' ≤ n → s' ≤ n' → s' ≤ s → Settles heads s' m taken (x n) (y n')) :
    Settles heads s m taken (bounded x) (bounded y) :=
  fun n n' ts hts hhead hs hm hn hn' =>
    h n n' ts.length (Nat.le_of_lt hn) (Nat.le_of_lt hn') hs n n' ts hts hhead (Nat.le_refl _) hm
      hn hn'

/-- The first round of a repetition; without rounds there are no tokens. -/
theorem rounds {x y : Nat → Parser α} {n n' : Nat} (hn : s ≤ n) (hn' : s ≤ n')
    (h : ∀ k k', n = k + 1 → n' = k' + 1 → Settles heads s m taken (x (k + 1)) (y (k' + 1))) :
    Settles heads s m taken (x n) (y n') := by
  cases n with
  | zero => exact .of_no_tokens hn
  | succ k =>
    cases n' with
    | zero => exact .of_no_tokens hn'
    | succ k' => exact h k k' rfl rfl

/-! ## Tokens -/

theorem peekToken_bind {f g : Token → Parser β}
    (h : ∀ k span, heads k → Settles (· = k) s m taken' (f ⟨k, span⟩) (g ⟨k, span⟩)) :
    Settles heads s m taken' (peekToken >>= f) (peekToken >>= g) := by
  intro n n' ts hts hhead hs hm hn hn'
  cases hts with
  | last span =>
    exact h .eof span (hhead _ rfl) n n' _ (.last span) (by rintro t ⟨⟩; rfl) hs hm hn hn'
  | @cons k span _ inside _ hothers =>
    exact h k span (hhead _ rfl) n n' _ (.cons inside trivial hothers) (by rintro t ⟨⟩; rfl) hs hm
      hn hn'

theorem peek_bind {f g : Lexeme → Parser β}
    (h : ∀ k, heads k → Settles (· = k) s m taken' (f k) (g k)) :
    Settles heads s m taken' (peek >>= f) (peek >>= g) :=
  peekToken_bind (f := fun t => f t.kind) (g := fun t => g t.kind) fun k _ hk => h k hk

theorem peekSecond_bind {f g : Option Lexeme → Parser β}
    (h : ∀ k?, Settles heads s m taken' (f k?) (g k?)) :
    Settles heads s m taken' (peekSecond >>= f) (peekSecond >>= g) :=
  fun n n' ts => h ((ts.drop 1).head?.map Token.kind) n n' ts

/-- A token that is not the end mark is taken. -/
theorem advance_bind {k : Lexeme} {f g : Token → Parser β} (hk : k ≠ .eof)
    (h : ∀ span, k.load ≤ m →
      Settles anyHead (s - 1) (m - 1) (fun b => taken' b - 1) (f ⟨k, span⟩) (g ⟨k, span⟩)) :
    Settles (· = k) s m taken' (advance >>= f) (advance >>= g) := by
  intro n n' ts hts hhead hs hm hn hn'
  cases hts with
  | last span => exact absurd (hhead _ rfl).symm hk
  | @cons k' span ts inside _ hothers =>
    obtain rfl : k' = k := hhead _ rfl
    have hpos := k'.load_pos
    rw [load_cons] at hm
    change k'.load + load ts ≤ m at hm
    rw [List.length_cons] at hs hn hn'
    rw [Gathers.advance_cons hothers, Gathers.advance_cons hothers]
    exact (h span (by omega) n n' ts hothers (fun _ _ => trivial) (by omega) (by omega) (by omega)
      (by omega)).cons

/-- A token is taken if it is not the end mark. -/
theorem advance_any_bind {f g : Token → Parser β}
    (h : ∀ k span, Settles anyHead s m taken' (f ⟨k, span⟩) (g ⟨k, span⟩)) :
    Settles heads s m taken' (advance >>= f) (advance >>= g) := by
  intro n n' ts hts hhead hs hm hn hn'
  cases hts with
  | last span => exact h .eof span n n' _ (.last span) (fun _ _ => trivial) hs hm hn hn'
  | @cons k span ts inside _ hothers =>
    refine advance_bind inside (fun span _ => ?_) n n' _ (.cons inside trivial hothers)
      (by rintro t ⟨⟩; rfl) hs hm hn hn'
    exact (h k span).mono (fun _ hk => hk) (Nat.sub_le s 1) (Nat.sub_le m 1) fun _ => Nat.sub_le _ 1

theorem isAt_bind {k : Lexeme} {f g : Bool → Parser β}
    (htrue : Settles (· = k) s m taken' (f true) (g true))
    (hfalse : Settles heads s m taken' (f false) (g false)) :
    Settles heads s m taken' (isAt k >>= f) (isAt k >>= g) := by
  refine peek_bind (f := fun k' => f (decide (k' = k))) (g := fun k' => g (decide (k' = k))) ?_
  intro k' hk'
  by_cases heq : k' = k
  · subst heq
    rw [decide_eq_true rfl]
    exact htrue
  · rw [decide_eq_false heq]
    exact hfalse.mono (fun k'' hk'' => hk'' ▸ hk') (Nat.le_refl _) (Nat.le_refl _)
      fun _ => Nat.le_refl _

theorem accept_bind {k : Lexeme} {f g : Bool → Parser β} (hk : k ≠ .eof)
    (htrue : Settles anyHead (s - 1) (m - 1) (fun b => taken' b - 1) (f true) (g true))
    (hfalse : Settles heads s m taken' (f false) (g false)) :
    Settles heads s m taken' (accept k >>= f) (accept k >>= g) :=
  isAt_bind (f := fun b => (if b then (do let _ ← advance; return true) else return false) >>= f)
    (g := fun b => (if b then (do let _ ← advance; return true) else return false) >>= g)
    (advance_bind (f := fun _ => f true) (g := fun _ => g true) hk fun _ _ => htrue) hfalse

theorem acceptSymbol_bind {sign : Symbol} {f g : Bool → Parser β}
    (htrue : Settles anyHead (s - 1) (m - 1) (fun b => taken' b - 1) (f true) (g true))
    (hfalse : Settles heads s m taken' (f false) (g false)) :
    Settles heads s m taken' (acceptSymbol sign >>= f) (acceptSymbol sign >>= g) :=
  accept_bind Lexeme.noConfusion htrue hfalse

theorem expect_bind {k : Lexeme} {expected : String} {f g : Token → Parser β} (hk : k ≠ .eof)
    (h : ∀ span, Settles anyHead (s - 1) (m - 1) (fun b => taken' b - 1) (f ⟨k, span⟩)
      (g ⟨k, span⟩)) :
    Settles heads s m taken' (expect k expected >>= f) (expect k expected >>= g) :=
  isAt_bind
    (f := fun b => (if b then advance else Parser.unexpected expected) >>= f)
    (g := fun b => (if b then advance else Parser.unexpected expected) >>= g)
    (advance_bind hk fun span _ => h span)
    fun _ _ _ _ _ _ _ _ _ => .error SyntaxFault.noConfusion

theorem expectSymbol_bind {sign : Symbol} {f g : Unit → Parser β}
    (h : Settles anyHead (s - 1) (m - 1) (fun b => taken' b - 1) (f ()) (g ())) :
    Settles heads s m taken' (expectSymbol sign >>= f) (expectSymbol sign >>= g) := by
  have hexpect : Settles heads s m (fun _ => 1) (expectSymbol sign) (expectSymbol sign) :=
    expect_bind Lexeme.noConfusion fun _ => pure rfl
  exact hexpect.bind fun _ => h

theorem identifier_bind {expected : String} {f g : String × Span → Parser β}
    (h : ∀ name span, Settles anyHead (s - 1) (m - 1) (fun b => taken' b - 1) (f (name, span))
      (g (name, span))) :
    Settles heads s m taken' (identifier expected >>= f) (identifier expected >>= g) := by
  intro n n' ts hts _ hs hm hn hn'
  cases hts with
  | last => exact .error SyntaxFault.noConfusion
  | @cons k span ts inside _ hothers =>
    cases k with
    | identifier name =>
      have hname := advance_bind (s := s) (m := m) (f := fun t => f (name, t.span))
        (g := fun t => g (name, t.span)) inside fun span _ => h name span
      exact hname n n' _ (.cons inside trivial hothers) (by rintro t ⟨⟩; rfl) hs hm hn hn'
    | _ => exact .error SyntaxFault.noConfusion

end Settles

variable {heads : Lexeme → Prop} {s m : Nat}

theorem settles_skipNewlines :
    Settles heads s m (fun _ => 0) skipNewlines skipNewlines :=
  fun _ _ _ hts _ _ _ _ _ =>
    .ok (complete_dropNewlines hts).1 (List.dropWhile_suffix _) (List.dropWhile_suffix _).length_le

theorem settles_endOfLine : Settles heads s m (fun _ => 1) endOfLine endOfLine :=
  .expect_bind Lexeme.noConfusion fun _ => .pure rfl

section Lists

variable {item item' : Parser α} (hitem : Settles anyHead s m (fun _ => 1) item item')

include hitem

theorem settles_itemsBefore (stop : Symbol) : ∀ n n' s' m', s' ≤ n → s' ≤ n' → s' ≤ s → m' ≤ m →
    Settles heads s' m' (fun _ => 0) (itemsBefore stop item n) (itemsBefore stop item' n') := by
  intro n
  induction n generalizing heads with
  | zero => exact fun n' s' m' hn _ _ _ => .of_no_tokens hn
  | succ n ih =>
    intro n' s' m' hn hn' hs hm
    refine .rounds hn hn' ?_
    rintro _ n' ⟨⟩ rfl
    refine .isAt_bind (.pure rfl) ?_
    refine (hitem.restrict hs hm).bind fun first => ?_
    refine .acceptSymbol_bind ?_ (.pure rfl)
    exact (ih n' (s' - 1 - 1) (m' - 1 - 1) (by omega) (by omega) (by omega) (by omega)).bind
      fun others => .pure rfl

theorem settles_itemsUntil (stop : Symbol) :
    Settles heads s m (fun _ => 1) (itemsUntil stop item) (itemsUntil stop item') := by
  refine (Settles.bounded fun n n' s' hn hn' hs =>
    settles_itemsBefore hitem stop n n' s' m hn hn' hs (Nat.le_refl m)).bind fun read => ?_
  exact .expectSymbol_bind (.pure rfl)

theorem settles_itemsAfter (separator : Symbol) (starts : Lexeme → Bool) :
    ∀ n n' s' m', s' ≤ n → s' ≤ n' → s' ≤ s + 1 → m' ≤ m + 1 →
      Settles heads s' m' (fun _ => 0) (itemsAfter separator starts item n)
        (itemsAfter separator starts item' n') := by
  intro n
  induction n generalizing heads with
  | zero => exact fun n' s' m' hn _ _ _ => .of_no_tokens hn
  | succ n ih =>
    intro n' s' m' hn hn' hs hm
    refine .rounds hn hn' ?_
    rintro _ n' ⟨⟩ rfl
    refine .acceptSymbol_bind ?_ (.pure rfl)
    refine .peek_bind fun k _ => ?_
    cases starts k with
    | false => exact .pure rfl
    | true =>
      refine (hitem.restrict (by omega) (by omega)).bind fun next => ?_
      exact (ih n' (s' - 1 - 1) (m' - 1 - 1) (by omega) (by omega) (by omega) (by omega)).bind
        fun others => .pure rfl

end Lists

end Parser

end StagedScript.Syntax
