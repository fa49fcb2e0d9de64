import StagedScript.Proofs.Syntax.Agreement
import StagedScript.Proofs.Syntax.Comments

/-!
# The comments that parsers take

A parser takes tokens from the front of a complete list and leaves a complete
list.  What it reads is related to the comments among the tokens that it takes;
the parsers of expressions and patterns take none.
-/

namespace StagedScript.Syntax

open Text

def tokenComments (ts : List Token) : List String :=
  commentTexts (ts.map Token.kind)

theorem tokenComments_cons_of_none {t : Token} (ht : t.kind.comment? = none) (ts : List Token) :
    tokenComments (t :: ts) = tokenComments ts :=
  List.filterMap_cons_none ht

namespace Parser

variable {α β : Type}

/-- What a parser leaves is where the one after it starts. -/
theorem of_bind_eq_ok {x : Parser α} {f : α → Parser β} {n : Nat} {ts rest : List Token} {b : β}
    (h : (x >>= f) n ts = .ok (b, rest)) :
    ∃ a mid, x n ts = .ok (a, mid) ∧ f a n mid = .ok (b, rest) := by
  have hstep : (x >>= f) n ts = (x n ts >>= fun r => f r.1 n r.2) := rfl
  rw [hstep] at h
  cases hout : x n ts with
  | error e =>
    rw [hout] at h
    nomatch h
  | ok out =>
    rw [hout] at h
    exact ⟨out.1, out.2, rfl, h⟩

/-- Among complete tokens, of which the first one is among `heads`, the parser takes some from the
front and leaves complete ones, and what it reads is related to the comments that it takes. -/
def Gathers (heads : Lexeme → Prop) (x : Parser α) (Q : α → List String → Prop) : Prop :=
  ∀ n ts a rest, Complete anyHead ts → (∀ t ∈ ts.head?, heads t.kind) → x n ts = .ok (a, rest) →
    Complete anyHead rest ∧
      ∃ texts, tokenComments ts = texts ++ tokenComments rest ∧ Q a texts

/-- The parser takes no comments. -/
abbrev Quiet (x : Parser α) : Prop :=
  Gathers anyHead x fun _ texts => texts = []

namespace Gathers

variable {heads heads' : Lexeme → Prop} {x : Parser α} {f : α → Parser β}
  {P : α → List String → Prop} {Q : β → List String → Prop}

theorem mono {P' : α → List String → Prop} (h : Gathers heads x P)
    (hheads : ∀ k, heads' k → heads k) (hP : ∀ a texts, P a texts → P' a texts) :
    Gathers heads' x P' := by
  intro n ts a rest hts hhead hrun
  obtain ⟨hrest, texts, htexts, ha⟩ := h n ts a rest hts (fun t ht => hheads _ (hhead t ht)) hrun
  exact ⟨hrest, texts, htexts, hP a texts ha⟩

theorem restrict (h : Gathers anyHead x P) : Gathers heads x P :=
  h.mono (fun _ _ => trivial) fun _ _ hP => hP

/-- It suffices to look at each first token. -/
theorem of_heads (h : ∀ k, heads k → Gathers (· = k) x P) : Gathers heads x P := by
  intro n ts a rest hts hhead hrun
  cases hts with
  | last span => exact h .eof (hhead _ rfl) n _ a rest (.last span) (by rintro t ⟨⟩; rfl) hrun
  | cons inside _ hothers =>
    exact h _ (hhead _ rfl) n _ a rest (.cons inside trivial hothers) (by rintro t ⟨⟩; rfl) hrun

theorem pure {a : α} (h : P a []) : Gathers heads (pure a) P := by
  rintro n ts _ _ hts _ ⟨⟩
  exact ⟨hts, [], rfl, h⟩

theorem throw (e : SyntaxFault) : Gathers heads (throw e) P :=
  fun _ _ _ _ _ _ hrun => nomatch hrun

theorem invalid (defect : Defect) (span : Span) : Gathers heads (invalid defect span) P :=
  throw _

theorem unexpected (expected : String) : Gathers heads (unexpected expected) P :=
  fun _ _ _ _ _ _ hrun => nomatch hrun

/-- What is read without tokens takes no comments. -/
theorem lift {x : Except SyntaxFault α} (h : ∀ a, P a []) :
    Gathers heads (liftM x : Parser α) P := by
  cases x with
  | error e => exact throw e
  | ok a => exact pure (h a)

theorem bind (hx : Gathers heads x P)
    (hf : ∀ a texts, P a texts → Gathers anyHead (f a) fun b more => Q b (texts ++ more)) :
    Gathers heads (x >>= f) Q := by
  intro n ts b rest hts hhead hrun
  obtain ⟨a, mid, hfirst, hsecond⟩ := of_bind_eq_ok hrun
  obtain ⟨hmid, texts, htexts, ha⟩ := hx n ts a mid hts hhead hfirst
  obtain ⟨hrest, more, hmore, hb⟩ := hf a texts ha n mid b rest hmid (fun _ _ => trivial) hsecond
  refine ⟨hrest, texts ++ more, ?_, hb⟩
  rw [htexts, hmore, List.append_assoc]

theorem bounded {x : Nat → Parser α} (h : ∀ n, Gathers heads (x n) P) :
    Gathers heads (bounded x) P :=
  fun n => h n n

end Gathers

/-- After a parser that takes no comments come those of what follows. -/
theorem Quiet.bind {heads : Lexeme → Prop} {x : Parser α} {f : α → Parser β}
    {Q : β → List String → Prop} (hx : Quiet x) (hf : ∀ a, Gathers anyHead (f a) Q) :
    Gathers heads (x >>= f) Q :=
  hx.restrict.bind fun a texts htexts => by
    subst htexts
    exact hf a

namespace Gathers

variable {heads : Lexeme → Prop} {Q : β → List String → Prop}

/-! ## Tokens -/

theorem peekToken_bind {f : Token → Parser β}
    (h : ∀ k span, heads k → Gathers (· = k) (f ⟨k, span⟩) Q) :
    Gathers heads (peekToken >>= f) Q := by
  intro n ts b rest hts hhead hrun
  cases hts with
  | last span =>
    exact h .eof span (hhead _ rfl) n _ b rest (.last span) (by rintro t ⟨⟩; rfl) hrun
  | @cons k span _ inside _ hothers =>
    exact h k span (hhead _ rfl) n _ b rest (.cons inside trivial hothers) (by rintro t ⟨⟩; rfl) hrun

theorem peek_bind {f : Lexeme → Parser β} (h : ∀ k, heads k → Gathers (· = k) (f k) Q) :
    Gathers heads (peek >>= f) Q :=
  peekToken_bind (f := fun t => f t.kind) fun k _ hk => h k hk

theorem peekSecond_bind {f : Option Lexeme → Parser β} (h : ∀ k?, Gathers heads (f k?) Q) :
    Gathers heads (peekSecond >>= f) Q :=
  fun n ts => h ((ts.drop 1).head?.map Token.kind) n ts

/-- What is left after a token is complete, unless the token is the end mark. -/
theorem advance_cons {k : Lexeme} {span : Span} {ts : List Token} (hts : Complete anyHead ts)
    (f : Token → Parser β) (n : Nat) :
    (advance >>= f) n (⟨k, span⟩ :: ts) = f ⟨k, span⟩ n ts := by
  cases hts <;> rfl

/-- A token that is no comment is taken. -/
theorem advance_bind {k : Lexeme} {f : Token → Parser β} (hk : k.comment? = none)
    (h : ∀ span, Gathers anyHead (f ⟨k, span⟩) Q) : Gathers (· = k) (advance >>= f) Q := by
  intro n ts b rest hts hhead hrun
  cases hts with
  | last span =>
    obtain rfl := hhead _ rfl
    exact h span n _ b rest (.last span) (fun _ _ => trivial) hrun
  | @cons k' span ts inside _ hothers =>
    obtain rfl : k' = k := hhead _ rfl
    rw [advance_cons hothers] at hrun
    rw [tokenComments_cons_of_none hk]
    exact h span n ts b rest hothers (fun _ _ => trivial) hrun

/-- A comment is taken. -/
theorem advance_comment_bind {text : String} {f : Token → Parser β}
    (h : ∀ span, Gathers anyHead (f ⟨.comment text, span⟩) fun b texts => Q b (text :: texts)) :
    Gathers (· = .comment text) (advance >>= f) Q := by
  intro n ts b rest hts hhead hrun
  cases hts with
  | last span => exact Lexeme.noConfusion (hhead _ rfl)
  | @cons k span ts inside _ hothers =>
    obtain rfl : k = .comment text := hhead _ rfl
    rw [advance_cons hothers] at hrun
    obtain ⟨hrest, texts, htexts, hb⟩ := h span n ts b rest hothers (fun _ _ => trivial) hrun
    exact ⟨hrest, text :: texts, congrArg (text :: ·) htexts, hb⟩

/-- If the second token is seen to be of a kind, it comes first when the one before it is taken. -/
theorem peekSecond_advance_bind {k : Lexeme} (second : Lexeme) {f : Option Lexeme → Parser β}
    {g : Token → Parser β} (hk : k.comment? = none) (hf : f (some second) = advance >>= g)
    (hsecond : ∀ span, Gathers (· = second) (g ⟨k, span⟩) Q)
    (hother : ∀ k?, k? ≠ some second → Gathers (· = k) (f k?) Q) :
    Gathers (· = k) (peekSecond >>= f) Q := by
  intro n ts b rest hts hhead hrun
  by_cases hseen : (ts.drop 1).head?.map Token.kind = some second
  · have htake : (advance >>= g) n ts = .ok (b, rest) := by
      rw [← hf, ← hseen]
      exact hrun
    cases hts with
    | last span => nomatch hseen
    | @cons k' span ts inside _ hothers =>
      obtain rfl : k' = k := hhead _ rfl
      rw [advance_cons hothers] at htake
      rw [tokenComments_cons_of_none hk]
      refine hsecond span n ts b rest hothers (fun t ht => ?_) htake
      have hkind : ts.head?.map Token.kind = some second := hseen
      rw [Option.mem_def.mp ht] at hkind
      exact Option.some.inj hkind
  · exact hother _ hseen n ts b rest hts hhead hrun

theorem isAt_bind {k : Lexeme} {f : Bool → Parser β} (htrue : Gathers (· = k) (f true) Q)
    (hfalse : Gathers heads (f false) Q) : Gathers heads (isAt k >>= f) Q := by
  refine peek_bind (f := fun k' => f (decide (k' = k))) fun k' hk' => ?_
  by_cases heq : k' = k
  · subst heq
    rw [decide_eq_true rfl]
    exact htrue
  · rw [decide_eq_false heq]
    exact hfalse.mono (fun k'' hk'' => hk'' ▸ hk') fun _ _ hQ => hQ

theorem accept_bind {k : Lexeme} {f : Bool → Parser β} (hk : k.comment? = none)
    (htrue : Gathers anyHead (f true) Q) (hfalse : Gathers heads (f false) Q) :
    Gathers heads (accept k >>= f) Q :=
  isAt_bind (f := fun b => (if b then (do let _ ← advance; return true) else return false) >>= f)
    (advance_bind (f := fun _ => f true) hk fun _ => htrue) hfalse

theorem acceptSymbol_bind {sign : Symbol} {f : Bool → Parser β}
    (htrue : Gathers anyHead (f true) Q) (hfalse : Gathers heads (f false) Q) :
    Gathers heads (acceptSymbol sign >>= f) Q :=
  accept_bind rfl htrue hfalse

theorem expect_bind {k : Lexeme} {expected : String} {f : Token → Parser β}
    (hk : k.comment? = none) (h : ∀ span, Gathers anyHead (f ⟨k, span⟩) Q) :
    Gathers heads (expect k expected >>= f) Q :=
  isAt_bind (f := fun b => (if b then advance else Parser.unexpected expected) >>= f)
    (advance_bind hk h) fun _ _ _ _ _ _ hrun => nomatch hrun

theorem expectSymbol_bind {sign : Symbol} {f : Unit → Parser β} (h : Gathers anyHead (f ()) Q) :
    Gathers heads (expectSymbol sign >>= f) Q := by
  have hexpect : Quiet (expectSymbol sign) := expect_bind rfl fun _ => pure rfl
  exact hexpect.bind fun _ => h

theorem identifier_bind {expected : String} {f : String × Span → Parser β}
    (h : ∀ name span, Gathers anyHead (f (name, span)) Q) :
    Gathers heads (identifier expected >>= f) Q := by
  intro n ts b rest hts _ hrun
  cases hts with
  | last span => cases hrun
  | @cons k span ts inside _ hothers =>
    cases k with
    | identifier name =>
      exact advance_bind (f := fun t => f (name, t.span)) rfl (fun span => h name span) n _ b rest
        (.cons inside trivial hothers) (by rintro t ⟨⟩; rfl) hrun
    | _ => cases hrun

end Gathers

theorem complete_dropNewlines {ts : List Token} (h : Complete anyHead ts) :
    Complete anyHead (ts.dropWhile (·.kind = .newline)) ∧
      tokenComments (ts.dropWhile (·.kind = .newline)) = tokenComments ts := by
  induction h with
  | last span => exact ⟨.last span, rfl⟩
  | @cons k span ts inside _ hothers ih =>
    by_cases hk : k = .newline
    · subst hk
      exact ih
    · rw [List.dropWhile_cons_of_neg (by simpa using hk)]
      exact ⟨.cons inside trivial hothers, rfl⟩

theorem quiet_skipNewlines : Quiet skipNewlines := by
  rintro n ts _ _ hts _ ⟨⟩
  obtain ⟨hrest, hcomments⟩ := complete_dropNewlines hts
  exact ⟨hrest, [], hcomments.symm, rfl⟩

/-- The end of a line is no comment. -/
theorem quiet_endOfLine : Quiet endOfLine :=
  .expect_bind rfl fun _ => .pure rfl

section Lists

variable {item : Parser α} (hitem : Quiet item)

include hitem

theorem quiet_itemsBefore (stop : Symbol) : ∀ n, Quiet (itemsBefore stop item n) := by
  intro n
  induction n with
  | zero => exact .throw _
  | succ n ih =>
    refine .isAt_bind (.pure rfl) (hitem.bind fun first => ?_)
    exact .acceptSymbol_bind (ih.bind fun _ => .pure rfl) (.pure rfl)

theorem quiet_itemsUntil (stop : Symbol) : Quiet (itemsUntil stop item) :=
  Quiet.bind (.bounded (quiet_itemsBefore hitem stop)) fun _ => .expectSymbol_bind (.pure rfl)

theorem quiet_itemsAfter (separator : Symbol) (starts : Lexeme → Bool) :
    ∀ n, Quiet (itemsAfter separator starts item n) := by
  intro n
  induction n with
  | zero => exact .throw _
  | succ n ih =>
    refine .acceptSymbol_bind (.peek_bind fun k _ => ?_) (.pure rfl)
    cases starts k with
    | false => exact .pure rfl
    | true => exact hitem.bind fun next => ih.bind fun others => .pure rfl

end Lists

end Parser

end StagedScript.Syntax
