import Mathlib.Data.Option.Basic
import StagedScript.Proofs.Syntax.ScannedTokens
import StagedScript.Proofs.Syntax.WellFormed

/-!
# Two runs of a parser

Two token lists that differ in places only lead parsers to the same outcome:
either both fail, and not because a budget ran out, or both read trees that are
the same up to places and take equally many tokens.  The budgets of the two runs
may differ as long as both suffice.
-/

namespace StagedScript.Syntax

open Text

/-- Which doubles and comments may occur in a token list. -/
structure Vocabulary where
  float : Float → Prop
  comment : String → Prop

namespace Vocabulary

variable (v : Vocabulary)

/-- The lexeme may occur; formatted strings may not. -/
def Admits : Lexeme → Prop
  | .identifier name => isName name = true
  | .float x => v.float x
  | .formatted _ => False
  | .comment text => v.comment text
  | _ => True

/-- The literals of expressions: a whole number has no sign, but the least one is read with it. -/
def Literal : Constant → Prop
  | .int n => n < 0 → n = Int64.minValue
  | .float x => v.float x
  | _ => True

/-- The literals of patterns, where a double may have a minus sign. -/
def SignedLiteral : Constant → Prop
  | .float x => ∃ y, v.float y ∧ (x = y ∨ x = -y)
  | _ => True

/-- What is read from tokens of the vocabulary. -/
def requirements : Requirements :=
  ⟨Expr.Holds v.Literal fun _ => False, Pattern.Holds v.SignedLiteral, v.comment⟩

end Vocabulary

/-- Two token lists that differ in places only, each up to its end mark. -/
inductive Twin (v : Vocabulary) : List Token → List Token → Prop
  | last (span span' : Span) : Twin v [⟨.eof, span⟩] [⟨.eof, span'⟩]
  | cons {k : Lexeme} {span span' : Span} {ts ts' : List Token} (inside : k ≠ .eof)
      (admitted : v.Admits k) : Twin v ts ts' → Twin v (⟨k, span⟩ :: ts) (⟨k, span'⟩ :: ts')

variable {v : Vocabulary}

theorem Twin.of_complete {ts ts' : List Token} (h : Complete v.Admits ts)
    (hkinds : ts'.map Token.kind = ts.map Token.kind) : Twin v ts ts' := by
  induction h generalizing ts' with
  | last span =>
    obtain ⟨⟨kind, span'⟩, us, rfl, rfl, hus⟩ := List.map_eq_cons_iff.mp hkinds
    obtain rfl : us = [] := List.map_eq_nil_iff.mp hus
    exact .last span span'
  | cons inside admitted _ ih =>
    obtain ⟨⟨kind, span'⟩, us, rfl, rfl, hus⟩ := List.map_eq_cons_iff.mp hkinds
    exact .cons inside admitted (ih hus)

theorem Twin.length_eq {ts ts' : List Token} (h : Twin v ts ts') : ts'.length = ts.length := by
  induction h with
  | last => rfl
  | cons _ _ _ ih => rw [List.length_cons, List.length_cons, ih]

theorem Twin.length_pos {ts ts' : List Token} (h : Twin v ts ts') : 0 < ts.length := by
  cases h <;> exact Nat.succ_pos _

namespace Parser

variable {α α' β β' : Type}

/-! ## Outcomes -/

/-- Both runs fail, or both read related values and leave twins, of which the first is shorter than
the bound by what the value takes. -/
inductive Alike (v : Vocabulary) (R : α → α' → Prop) (taken : α → Nat) (bound : Nat) :
    Except SyntaxFault (α × List Token) → Except SyntaxFault (α' × List Token) → Prop
  | ok {a : α} {a' : α'} {rest rest' : List Token} (related : R a a') (twins : Twin v rest rest')
      (fits : rest.length + taken a ≤ bound) : Alike v R taken bound (.ok (a, rest)) (.ok (a', rest'))
  | error {e e' : SyntaxFault} (first : e ≠ .exhausted) (second : e' ≠ .exhausted) :
    Alike v R taken bound (.error e) (.error e')

/-- The outcomes with one more token in front of what was read. -/
theorem Alike.grow {R : α → α' → Prop} {taken : α → Nat} {bound : Nat}
    {out : Except SyntaxFault (α × List Token)} {out' : Except SyntaxFault (α' × List Token)}
    (h : Alike v R (fun a => taken a - 1) bound out out') : Alike v R taken (bound + 1) out out' := by
  cases h with
  | error first second => exact .error first second
  | ok related twins fits => exact .ok related twins (by omega)

/-- The two parsers have like outcomes on twins of at most `m` tokens, of which the first is
among `heads`, with more rounds than tokens. -/
def Agree (v : Vocabulary) (heads : Lexeme → Prop) (m : Nat) (R : α → α' → Prop) (taken : α → Nat)
    (x : Parser α) (y : Parser α') : Prop :=
  ∀ n ts ts', Twin v ts ts' → (∀ t ∈ ts.head?, heads t.kind) → ts.length ≤ m → ts.length < n →
    Alike v R taken ts.length (x n ts) (y n ts')

/-- Every token may come first. -/
abbrev anyHead (_ : Lexeme) : Prop :=
  True

namespace Agree

variable {heads heads' : Lexeme → Prop} {m m' : Nat} {R : α → α' → Prop} {S : β → β' → Prop}
  {taken : α → Nat} {taken' : β → Nat} {x : Parser α} {y : Parser α'}
  {f : α → Parser β} {g : α' → Parser β'}

/-- There are no twins without tokens. -/
theorem zero (hm : m ≤ 0) : Agree v heads m R taken x y :=
  fun _ _ _ htwin _ hle _ => absurd htwin.length_pos (Nat.not_lt.mpr (Nat.le_trans hle hm))

theorem mono {R' : α → α' → Prop} {taken₂ : α → Nat} (h : Agree v heads m R taken x y)
    (hheads : ∀ k, heads' k → heads k) (hm : m' ≤ m) (hR : ∀ a a', R a a' → R' a a')
    (htaken : ∀ a, taken₂ a ≤ taken a) : Agree v heads' m' R' taken₂ x y := by
  intro n ts ts' htwin hhead hle hn
  have hout := h n ts ts' htwin (fun t ht => hheads _ (hhead t ht)) (Nat.le_trans hle hm) hn
  revert hout
  generalize x n ts = out
  generalize y n ts' = out'
  intro hout
  cases hout with
  | ok related twins fits =>
    exact .ok (hR _ _ related) twins (Nat.le_trans (Nat.add_le_add_left (htaken _) _) fits)
  | error first second => exact .error first second

/-- The same parsers with fewer tokens or fewer heads. -/
theorem restrict (h : Agree v anyHead m R taken x y) (hm : m' ≤ m) : Agree v heads m' R taken x y :=
  h.mono (fun _ _ => trivial) hm (fun _ _ hR => hR) fun _ => Nat.le_refl _

/-- It suffices to look at each first token. -/
theorem of_heads (h : ∀ k, heads k → Agree v (· = k) m R taken x y) :
    Agree v heads m R taken x y := by
  intro n ts ts' htwin hhead hm hn
  cases htwin with
  | last span span' =>
    exact h .eof (hhead _ rfl) n _ _ (.last span span') (by rintro t ⟨⟩; rfl) hm hn
  | @cons k span span' ts ts' inside admitted twins =>
    exact h k (hhead _ rfl) n _ _ (.cons inside admitted twins) (by rintro t ⟨⟩; rfl) hm hn

theorem vacuous (h : ∀ k, ¬heads k) : Agree v heads m R taken x y :=
  of_heads fun k hk => absurd hk (h k)

theorem pure {a : α} {a' : α'} (h : R a a') (htaken : taken a = 0) :
    Agree v heads m R taken (pure a) (pure a') := by
  intro n ts ts' htwin _ _ _
  exact .ok h htwin (by rw [htaken]; exact Nat.le_refl _)

theorem throw {e e' : SyntaxFault} (he : e ≠ .exhausted) (he' : e' ≠ .exhausted) :
    Agree v heads m R taken (throw e) (throw e') :=
  fun _ _ _ _ _ _ _ => .error he he'

theorem invalid (defect : Defect) (span span' : Span) :
    Agree v heads m R taken (invalid defect span) (invalid defect span') :=
  throw SyntaxFault.noConfusion SyntaxFault.noConfusion

theorem unexpected (expected : String) :
    Agree v heads m R taken (unexpected expected) (unexpected expected) := by
  intro n ts ts' _ _ _ _
  exact .error SyntaxFault.noConfusion SyntaxFault.noConfusion

theorem bind (hx : Agree v heads m R taken x y)
    (hf : ∀ a a', R a a' →
      Agree v anyHead (m - taken a) S (fun b => taken' b - taken a) (f a) (g a')) :
    Agree v heads m S taken' (x >>= f) (y >>= g) := by
  intro n ts ts' htwin hhead hm hn
  have hout := hx n ts ts' htwin hhead hm hn
  show Alike v S taken' ts.length (x n ts >>= fun r => f r.1 n r.2)
    (y n ts' >>= fun r => g r.1 n r.2)
  revert hout
  generalize x n ts = out
  generalize y n ts' = out'
  intro hout
  cases hout with
  | error first second => exact .error first second
  | @ok a a' rest rest' related twins fits =>
    have hnext := hf a a' related n rest rest' twins (fun _ _ => trivial) (by omega) (by omega)
    show Alike v S taken' ts.length (f a n rest) (g a' n rest')
    revert hnext
    generalize f a n rest = last
    generalize g a' n rest' = last'
    intro hnext
    cases hnext with
    | error first second => exact .error first second
    | ok related' twins' fits' => exact .ok related' twins' (by omega)

theorem bounded {x : Nat → Parser α} {y : Nat → Parser α'}
    (h : ∀ n m', m' ≤ n → m' ≤ m → Agree v heads m' R taken (x n) (y n)) :
    Agree v heads m R taken (bounded x) (bounded y) :=
  fun n ts ts' htwin hhead hm hn =>
    h n ts.length (Nat.le_of_lt hn) hm n ts ts' htwin hhead (Nat.le_refl _) hn

/-! ## Tokens -/

theorem peekToken_bind {f : Token → Parser β} {g : Token → Parser β'}
    (h : ∀ k span span', heads k → Agree v (· = k) m S taken' (f ⟨k, span⟩) (g ⟨k, span'⟩)) :
    Agree v heads m S taken' (peekToken >>= f) (peekToken >>= g) := by
  intro n ts ts' htwin hhead hm hn
  cases htwin with
  | last span span' =>
    have hk := hhead _ rfl
    exact h .eof span span' hk n _ _ (.last span span') (by rintro t ⟨⟩; rfl) hm hn
  | cons inside admitted twins =>
    have hk := hhead _ rfl
    exact h _ _ _ hk n _ _ (.cons inside admitted twins) (by rintro t ⟨⟩; rfl) hm hn

theorem peek_bind {f : Lexeme → Parser β} {g : Lexeme → Parser β'}
    (h : ∀ k, heads k → Agree v (· = k) m S taken' (f k) (g k)) :
    Agree v heads m S taken' (peek >>= f) (peek >>= g) :=
  peekToken_bind (f := fun t => f t.kind) (g := fun t => g t.kind) fun k _ _ hk => h k hk

theorem peekSecond_bind {f : Option Lexeme → Parser β} {g : Option Lexeme → Parser β'}
    (h : ∀ k?, Agree v heads m S taken' (f k?) (g k?)) :
    Agree v heads m S taken' (peekSecond >>= f) (peekSecond >>= g) := by
  intro n ts ts' htwin hhead hm hn
  have hsame : ((ts.drop 1).head?.map (·.kind)) = ((ts'.drop 1).head?.map (·.kind)) := by
    cases htwin with
    | last => rfl
    | cons _ _ twins => cases twins <;> rfl
  show Alike v S taken' ts.length (f ((ts.drop 1).head?.map (·.kind)) n ts)
    (g ((ts'.drop 1).head?.map (·.kind)) n ts')
  rw [← hsame]
  exact h _ n ts ts' htwin hhead hm hn

/-- A token that is not the end mark is taken. -/
theorem advance_bind {k : Lexeme} {f : Token → Parser β} {g : Token → Parser β'} (hk : k ≠ .eof)
    (h : ∀ span span', v.Admits k →
      Agree v anyHead (m - 1) S (fun b => taken' b - 1) (f ⟨k, span⟩) (g ⟨k, span'⟩)) :
    Agree v (· = k) m S taken' (advance >>= f) (advance >>= g) := by
  intro n ts ts' htwin hhead hm hn
  cases htwin with
  | last span span' => exact absurd (hhead _ rfl).symm hk
  | @cons k' span span' ts ts' inside admitted twins =>
    obtain rfl : k' = k := hhead _ rfl
    rw [List.length_cons] at hm hn
    have hnext := h span span' admitted n ts ts' twins (fun _ _ => trivial) (by omega) (by omega)
    have hadvance : (advance >>= f) n (⟨k', span⟩ :: ts) = f ⟨k', span⟩ n ts := by
      cases twins <;> rfl
    have hadvance' : (advance >>= g) n (⟨k', span'⟩ :: ts') = g ⟨k', span'⟩ n ts' := by
      cases twins <;> rfl
    rw [hadvance, hadvance']
    exact hnext.grow

/-- A token that is not the end mark is taken, and the one after it was seen before. -/
theorem peekSecond_advance_bind {k : Lexeme} {f : Option Lexeme → Token → Parser β}
    {g : Option Lexeme → Token → Parser β'} (hk : k ≠ .eof)
    (h : ∀ second span span', v.Admits k →
      Agree v (· = second) (m - 1) S (fun b => taken' b - 1) (f (some second) ⟨k, span⟩)
        (g (some second) ⟨k, span'⟩)) :
    Agree v (· = k) m S taken' (peekSecond >>= fun second => advance >>= f second)
      (peekSecond >>= fun second => advance >>= g second) := by
  intro n ts ts' htwin hhead hm hn
  cases htwin with
  | last span span' => exact absurd (hhead _ rfl).symm hk
  | @cons k' span span' ts ts' inside admitted twins =>
    obtain rfl : k' = k := hhead _ rfl
    rw [List.length_cons] at hm hn
    have hnext (second : Lexeme) (hsecond : ∀ t ∈ ts.head?, t.kind = second) :=
      (h second span span' admitted n ts ts' twins hsecond (by omega) (by omega)).grow
    cases twins with
    | last => exact hnext .eof (by rintro t ⟨⟩; rfl)
    | @cons second => exact hnext second (by rintro t ⟨⟩; rfl)

/-- A token is taken if it is not the end mark. -/
theorem advance_any_bind {f : Token → Parser β} {g : Token → Parser β'}
    (h : ∀ k span span', v.Admits k →
      Agree v anyHead m S taken' (f ⟨k, span⟩) (g ⟨k, span'⟩)) :
    Agree v heads m S taken' (advance >>= f) (advance >>= g) := by
  intro n ts ts' htwin hhead hm hn
  cases htwin with
  | last span span' =>
    exact h .eof span span' trivial n _ _ (.last span span') (fun _ _ => trivial) hm hn
  | @cons k span span' ts ts' inside admitted twins =>
    refine advance_bind inside (fun span span' hadmits => ?_) n _ _ (.cons inside admitted twins)
      (by rintro t ⟨⟩; rfl) hm hn
    exact (h k span span' hadmits).mono (fun _ hk => hk) (Nat.sub_le m 1) (fun _ _ hS => hS)
      fun _ => Nat.sub_le _ 1

theorem isAt_bind {k : Lexeme} {f : Bool → Parser β} {g : Bool → Parser β'}
    (htrue : Agree v (· = k) m S taken' (f true) (g true))
    (hfalse : Agree v (fun k' => heads k' ∧ k' ≠ k) m S taken' (f false) (g false)) :
    Agree v heads m S taken' (isAt k >>= f) (isAt k >>= g) := by
  refine peek_bind (f := fun k' => f (decide (k' = k))) (g := fun k' => g (decide (k' = k))) ?_
  intro k' hk'
  by_cases heq : k' = k
  · subst heq
    rw [decide_eq_true rfl]
    exact htrue
  · rw [decide_eq_false heq]
    exact hfalse.mono (fun k'' hk'' => hk'' ▸ ⟨hk', heq⟩) (Nat.le_refl _) (fun _ _ hS => hS)
      fun _ => Nat.le_refl _

theorem accept_bind {k : Lexeme} {f : Bool → Parser β} {g : Bool → Parser β'} (hk : k ≠ .eof)
    (htrue : v.Admits k → Agree v anyHead (m - 1) S (fun b => taken' b - 1) (f true) (g true))
    (hfalse : Agree v (fun k' => heads k' ∧ k' ≠ k) m S taken' (f false) (g false)) :
    Agree v heads m S taken' (accept k >>= f) (accept k >>= g) :=
  isAt_bind (f := fun b => (if b then (do let _ ← advance; return true) else return false) >>= f)
    (g := fun b => (if b then (do let _ ← advance; return true) else return false) >>= g)
    (advance_bind (f := fun _ => f true) (g := fun _ => g true) hk
      fun _ _ hadmits => htrue hadmits) hfalse

theorem acceptSymbol_bind {sign : Symbol} {f : Bool → Parser β} {g : Bool → Parser β'}
    (htrue : Agree v anyHead (m - 1) S (fun b => taken' b - 1) (f true) (g true))
    (hfalse : Agree v (fun k' => heads k' ∧ k' ≠ .symbol sign) m S taken' (f false) (g false)) :
    Agree v heads m S taken' (acceptSymbol sign >>= f) (acceptSymbol sign >>= g) :=
  accept_bind Lexeme.noConfusion (fun _ => htrue) hfalse

theorem expect_bind {k : Lexeme} {expected : String} {f : Token → Parser β} {g : Token → Parser β'}
    (hk : k ≠ .eof)
    (h : ∀ span span', v.Admits k →
      Agree v anyHead (m - 1) S (fun b => taken' b - 1) (f ⟨k, span⟩) (g ⟨k, span'⟩)) :
    Agree v heads m S taken' (expect k expected >>= f) (expect k expected >>= g) :=
  isAt_bind
    (f := fun b => (if b then advance else Parser.unexpected expected) >>= f)
    (g := fun b => (if b then advance else Parser.unexpected expected) >>= g)
    (advance_bind hk h)
    fun _ _ _ _ _ _ _ => .error SyntaxFault.noConfusion SyntaxFault.noConfusion

theorem expectSymbol_bind {sign : Symbol} {f : Unit → Parser β} {g : Unit → Parser β'}
    (h : Agree v anyHead (m - 1) S (fun b => taken' b - 1) (f ()) (g ())) :
    Agree v heads m S taken' (expectSymbol sign >>= f) (expectSymbol sign >>= g) := by
  have hexpect : Agree v heads m (fun _ _ => True) (fun _ => 1) (expectSymbol sign)
      (expectSymbol sign) :=
    expect_bind Lexeme.noConfusion fun _ _ _ => pure trivial rfl
  exact hexpect.bind fun _ _ _ => h

theorem identifier_bind {expected : String} {f : String × Span → Parser β}
    {g : String × Span → Parser β'}
    (h : ∀ name span span', isName name = true →
      Agree v anyHead (m - 1) S (fun b => taken' b - 1) (f (name, span)) (g (name, span'))) :
    Agree v heads m S taken' (identifier expected >>= f) (identifier expected >>= g) := by
  intro n ts ts' htwin hhead hm hn
  cases htwin with
  | last => exact .error SyntaxFault.noConfusion SyntaxFault.noConfusion
  | @cons k span span' ts ts' inside admitted twins =>
    cases k with
    | identifier name =>
      have hname := advance_bind (m := m) (f := fun t => f (name, t.span))
        (g := fun t => g (name, t.span)) inside fun span span' hadmits => h name span span' hadmits
      exact hname n _ _ (.cons inside admitted twins) (by rintro t ⟨⟩; rfl) hm hn
    | _ => exact .error SyntaxFault.noConfusion SyntaxFault.noConfusion

end Agree

section Lists

variable {heads : Lexeme → Prop} {m : Nat} {R : α → α' → Prop} {item : Parser α}
  {item' : Parser α'} (hitem : Agree v anyHead m R (fun _ => 1) item item')

include hitem

theorem agree_itemsBefore (stop : Symbol) : ∀ n m', m' ≤ n → m' ≤ m →
    Agree v heads m' (fun read read' => List.Forall₂ R read.1 read'.1 ∧ read.2 = read'.2)
      (fun _ => 0) (itemsBefore stop item n) (itemsBefore stop item' n) := by
  intro n
  induction n generalizing heads with
  | zero => exact fun m' hn _ => .zero hn
  | succ n ih =>
    intro m' hn hm
    refine .isAt_bind (.pure ⟨.nil, rfl⟩ rfl) ?_
    refine (hitem.restrict hm).bind fun a a' ha => ?_
    refine .acceptSymbol_bind ?_ (.pure ⟨.cons ha .nil, rfl⟩ rfl)
    refine (ih (m' - 1 - 1) (by omega) (by omega)).bind fun others others' hothers => ?_
    exact .pure ⟨.cons ha hothers.1, rfl⟩ rfl

theorem agree_itemsUntil (stop : Symbol) :
    Agree v heads m (List.Forall₂ R) (fun _ => 1) (itemsUntil stop item) (itemsUntil stop item') := by
  refine (Agree.bounded fun n m' hn hm => agree_itemsBefore hitem stop n m' hn hm).bind
    fun read read' hread => ?_
  exact .expectSymbol_bind (.pure hread.1 rfl)

theorem agree_itemsAfter (separator : Symbol) (starts : Lexeme → Bool) : ∀ n m', m' ≤ n → m' ≤ m + 1 →
    Agree v heads m' (List.Forall₂ R) (fun _ => 0) (itemsAfter separator starts item n)
      (itemsAfter separator starts item' n) := by
  intro n
  induction n generalizing heads with
  | zero => exact fun m' hn _ => .zero hn
  | succ n ih =>
    intro m' hn hm
    refine .acceptSymbol_bind ?_ (.pure .nil rfl)
    refine .peek_bind fun k _ => ?_
    cases starts k with
    | false => exact .pure .nil rfl
    | true =>
      refine (hitem.restrict (by omega)).bind fun a a' ha => ?_
      refine (ih (m' - 1 - 1) (by omega) (by omega)).bind fun others others' hothers => ?_
      exact .pure (.cons ha hothers) rfl

/-- A separator that any item may follow is followed by one. -/
theorem agree_itemsAfter_cons (separator : Symbol) (n m' : Nat) (hn : m' ≤ n) (hm : m' ≤ m + 1) :
    Agree v (· = .symbol separator) m' (fun as as' => List.Forall₂ R as as' ∧ as ≠ []) (fun _ => 0)
      (itemsAfter separator (fun _ => true) item n) (itemsAfter separator (fun _ => true) item' n) := by
  cases n with
  | zero => exact .zero hn
  | succ n =>
    refine .acceptSymbol_bind ?_ (.vacuous fun k hk => hk.2 hk.1)
    refine .peek_bind fun k _ => ?_
    refine (hitem.restrict (by omega)).bind fun a a' ha => ?_
    refine (agree_itemsAfter hitem separator _ n (m' - 1 - 1) (by omega) (by omega)).bind
      fun others others' hothers => ?_
    exact .pure ⟨.cons ha hothers, List.cons_ne_nil _ _⟩ rfl

end Lists

end Parser

end StagedScript.Syntax
