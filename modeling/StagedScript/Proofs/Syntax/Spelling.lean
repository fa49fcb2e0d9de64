import Mathlib.Data.List.Forall2
import StagedScript.Proofs.Syntax.Lexemes

/-!
# Cutting printed texts into lexemes

A text spells lexemes if it is cut into them whatever clear text follows.  The
spelling of a printed expression is put together from those of its parts.
-/

namespace StagedScript.Syntax

open Text

/-! ## Cutting -/

/-- A text is cut into lexemes of one line up to some later part of it, with blanks before any of
them. -/
inductive Cuts : List Char → List Lexeme → List Char → Prop
  | nil (cs : List Char) : Cuts cs [] cs
  | blank {cs rest : List Char} {ks : List Lexeme} : Cuts cs ks rest → Cuts (' ' :: cs) ks rest
  | cons {cs rest : List Char} {k : Lexeme} {ks : List Lexeme} {n : Nat}
      (scan : scanLexeme cs = ⟨.ok k, n⟩) (fits : n ≤ cs.length) (line : k.keepsLineOpen = true) :
      Cuts (cs.drop n) ks rest → Cuts cs (k :: ks) rest

theorem Cuts.trans {cs mid rest : List Char} {ks ks' : List Lexeme} (h : Cuts cs ks mid)
    (h' : Cuts mid ks' rest) : Cuts cs (ks ++ ks') rest := by
  induction h with
  | nil => exact h'
  | blank _ ih => exact .blank (ih h')
  | cons scan fits line _ ih => exact .cons scan fits line (ih h')

theorem Cuts.one {text rest : List Char} {k : Lexeme}
    (scan : scanLexeme (text ++ rest) = ⟨.ok k, text.length⟩) (line : k.keepsLineOpen = true) :
    Cuts (text ++ rest) [k] rest := by
  refine .cons scan (by simp) line ?_
  rw [List.drop_left]
  exact .nil rest

/-- A text without a blank in front starts with its first lexeme. -/
theorem Cuts.first {c : Char} {cs rest : List Char} {ks : List Lexeme}
    (h : Cuts (c :: cs) ks rest) (hc : c ≠ ' ') (hne : ks ≠ []) : ∃ k n ks', ks = k :: ks' ∧
      scanLexeme (c :: cs) = ⟨.ok k, n⟩ ∧ k.keepsLineOpen = true ∧
        Cuts ((c :: cs).drop n) ks' rest := by
  cases h with
  | nil => exact absurd rfl hne
  | blank => exact absurd rfl hc
  | cons scan _ line hrest => exact ⟨_, _, _, rfl, scan, line, hrest⟩

/-- What starts like a symbol with a longer form does not start an expression. -/
theorem startsExpr_of_scanSymbol? {c : Char} {cs : List Char} {sign : Symbol}
    (hc : c ∈ ['=', '>', '*', '/']) (hscan : scanSymbol? (c :: cs) = some sign) :
    Parser.startsExpr (.symbol sign) = false := by
  have hsign : sign ∈ [.eq, .eqEq, .gt, .gtEq, .star, .starStar, .starEq, .slash, .slashSlash] := by
    simp only [List.mem_cons, List.not_mem_nil, or_false] at hc
    cases cs with
    | nil => rcases hc with rfl | rfl | rfl | rfl <;> (cases hscan; decide)
    | cons d cs =>
      by_cases heq : d = '='
      · subst heq
        rcases hc with rfl | rfl | rfl | rfl <;> (cases hscan; decide)
      by_cases hstar : d = '*'
      · subst hstar
        rcases hc with rfl | rfl | rfl | rfl <;> (cases hscan; decide)
      by_cases hslash : d = '/'
      · subst hslash
        rcases hc with rfl | rfl | rfl | rfl <;> (cases hscan; decide)
      rcases hc with rfl | rfl | rfl | rfl <;> simp [scanSymbol?, heq, hstar, hslash] at hscan <;>
        subst hscan <;> decide
  revert hsign
  cases sign <;> decide

/-- A text that starts with the lexeme of an expression does not make a symbol longer. -/
theorem Cuts.severed {cs rest : List Char} {k : Lexeme} {ks : List Lexeme}
    (h : Cuts cs (k :: ks) rest) (hk : Parser.startsExpr k = true) : isSevered cs = true := by
  cases h with
  | blank => rfl
  | cons scan _ line _ =>
    cases cs with
    | nil => rfl
    | cons c cs =>
      -- Only these make a symbol longer, and none of them starts an expression.
      have hc : c ∉ ['=', '>', '*', '/'] := by
        intro hc
        have hplain : c ≠ '\n' ∧ isNameStart c = false ∧ c.isDigit = false ∧
            ¬ (c = '"' ∨ c = '\'') := by
          simp only [List.mem_cons, List.not_mem_nil, or_false] at hc
          rcases hc with rfl | rfl | rfl | rfl <;> decide
        rw [scanLexeme, if_neg hplain.1, hplain.2.1, hplain.2.2.1, if_neg hplain.2.2.2] at scan
        cases hscan : scanSymbol? (c :: cs) with
        | none => simp [hscan] at scan
        | some sign =>
          simp only [hscan, Bool.false_eq_true, if_false, Scan.mk.injEq, Except.ok.injEq] at scan
          rw [← scan.1, startsExpr_of_scanSymbol? hc hscan] at hk
          exact Bool.noConfusion hk
      simp only [List.mem_cons, List.not_mem_nil, or_false, not_or] at hc
      simp [isSevered, hc]

/-! ## Spelling -/

/-- No bracket is open after the lexemes that was not open before. -/
def Balanced (ks : List Lexeme) : Prop :=
  ∀ depth, ks.foldl Lexer.depthAfter depth = depth

theorem Balanced.append {ks ks' : List Lexeme} (h : Balanced ks) (h' : Balanced ks') :
    Balanced (ks ++ ks') := by
  intro depth
  rw [List.foldl_append, h, h']

/-- A text without a blank in front is cut into the lexemes whatever clear text follows. -/
structure Spells (text : List Char) (ks : List Lexeme) : Prop where
  cuts : ∀ rest, isClear rest = true → Cuts (text ++ rest) ks rest
  balanced : Balanced ks
  solid : text.head? ≠ some ' '

namespace Spells

variable {t t' : List Char} {ks ks' : List Lexeme}

theorem nil : Spells [] [] :=
  ⟨fun rest _ => .nil rest, fun _ => rfl, by simp⟩

theorem of_scan {k : Lexeme} (line : k.keepsLineOpen = true)
    (neutral : ∀ depth, Lexer.depthAfter depth k = depth)
    (scan : ∀ rest, isClear rest = true → scanLexeme (t ++ rest) = ⟨.ok k, t.length⟩) :
    Spells t [k] := by
  refine ⟨fun rest hrest => .one (scan rest hrest) line, neutral, fun hblank => ?_⟩
  obtain ⟨cs, rfl⟩ := List.head?_eq_some_iff.mp hblank
  have hfault := congrArg Scan.result (scan [] rfl)
  rw [List.append_nil, scanLexeme_blank] at hfault
  exact absurd hfault (by simp)

theorem keyword (word : Keyword) : Spells word.text.toList [.keyword word] :=
  .of_scan rfl (fun _ => rfl) fun _ hrest => by
    rw [scanLexeme_keyword word hrest, String.length_toList]

theorem name {id : String} (hid : isName id = true) : Spells id.toList [.identifier id] :=
  .of_scan rfl (fun _ => rfl) fun _ hrest => by rw [scanLexeme_name hid hrest, String.length_toList]

theorem quoted {hexControls : Bool} {quote : Char} (hquote : IsQuote quote) (s : String) :
    Spells (Text.quoted hexControls quote s).toList [.string s] :=
  .of_scan rfl (fun _ => rfl) fun _ hrest => by
    rw [scanLexeme_string hquote s hrest, String.length_toList]

theorem string {quote : Char} (hquote : IsQuote quote) (s : String) :
    Spells (sourceQuoted quote s).toList [.string s] :=
  quoted hquote s

theorem tripleQuoted (s : String) : Spells (Text.tripleQuoted s).toList [.string s] :=
  .of_scan rfl (fun _ => rfl) fun rest _ => by rw [scanLexeme_tripleQuoted, String.length_toList]

theorem integer {n : Nat} (hn : n ≤ maxMagnitude) :
    Spells (Nat.toDigits 10 n) [.integer n] :=
  .of_scan rfl (fun _ => rfl) fun _ hrest => scanLexeme_integer hn hrest

/-- One text after another where the second one is clear. -/
theorem append (h : Spells t ks) (h' : Spells t' ks')
    (hclear : ∀ rest, isClear rest = true → isClear (t' ++ rest) = true) :
    Spells (t ++ t') (ks ++ ks') := by
  constructor
  · intro rest hrest
    rw [List.append_assoc]
    exact (h.cuts _ (hclear rest hrest)).trans (h'.cuts rest hrest)
  · exact h.balanced.append h'.balanced
  · cases t with
    | nil => exact h'.solid
    | cons c t => exact h.solid

theorem ne_nil (h : Spells t ks) (hks : ks ≠ []) : t ≠ [] := by
  rintro rfl
  have hcuts := h.cuts [] rfl
  cases hcuts with
  | nil => exact hks rfl
  | cons scan _ line _ =>
    cases scan
    exact Bool.noConfusion line

/-- One text after another with a blank between. -/
theorem spaced (h : Spells t ks) (h' : Spells t' ks') (hks : ks ≠ []) :
    Spells (t ++ ' ' :: t') (ks ++ ks') := by
  constructor
  · intro rest hrest
    rw [List.append_assoc]
    exact (h.cuts _ rfl).trans (.blank (h'.cuts rest hrest))
  · exact h.balanced.append h'.balanced
  · obtain ⟨c, t, rfl⟩ := List.exists_cons_of_ne_nil (h.ne_nil hks)
    exact h.solid

/-- A separator. -/
theorem mark (sign : Symbol) (hsign : sign ∈ [.colon, .comma, .dot, .atSign, .pipe]) :
    Spells sign.text.toList [.symbol sign] := by
  have hmark : sign ∈ [Symbol.colon, .comma, .dot, .atSign, .leftParen, .rightParen, .leftBracket,
      .rightBracket, .leftBrace, .rightBrace, .pipe] := by
    revert hsign
    cases sign <;> decide
  have hlength : sign.text.toList.length = 1 := by
    revert hsign
    cases sign <;> decide
  apply of_scan rfl
  · intro depth
    revert hsign
    cases sign <;> simp [Lexer.depthAfter, Symbol.opens, Symbol.closes]
  · intro rest _
    rw [scanLexeme_mark sign hmark, hlength]

/-- A text and a separator, which is followed by a blank if it is not the last thing. -/
theorem marked (h : Spells t ks) (sign : Symbol) (hsign : sign ∈ [.colon, .comma]) :
    Spells (t ++ sign.text.toList) (ks ++ [.symbol sign]) := by
  have hmark : sign ∈ [Symbol.colon, .comma, .dot, .atSign, .pipe] := by
    revert hsign
    cases sign <;> decide
  apply h.append (mark sign hmark)
  intro rest _
  simp only [List.mem_cons, List.not_mem_nil, or_false] at hsign
  rcases hsign with rfl | rfl <;> rfl

/-- A text between brackets. -/
theorem bracketed (h : Spells t ks) (opening closing : Symbol)
    (hpair : (opening, closing) ∈ [(Symbol.leftParen, Symbol.rightParen),
      (.leftBracket, .rightBracket), (.leftBrace, .rightBrace)]) :
    Spells (opening.text.toList ++ (t ++ closing.text.toList))
      (Syntax.bracketed opening closing ks) := by
  simp only [List.mem_cons, List.not_mem_nil, or_false, Prod.mk.injEq] at hpair
  constructor
  · intro rest _
    have hopening : Cuts (opening.text.toList ++ (t ++ (closing.text.toList ++ rest)))
        [.symbol opening] (t ++ (closing.text.toList ++ rest)) := by
      apply Cuts.one _ rfl
      rcases hpair with ⟨rfl, rfl⟩ | ⟨rfl, rfl⟩ | ⟨rfl, rfl⟩ <;> rfl
    have hclosing : Cuts (closing.text.toList ++ rest) [.symbol closing] rest := by
      apply Cuts.one _ rfl
      rcases hpair with ⟨rfl, rfl⟩ | ⟨rfl, rfl⟩ | ⟨rfl, rfl⟩ <;> rfl
    have hclear : isClear (closing.text.toList ++ rest) = true := by
      rcases hpair with ⟨rfl, rfl⟩ | ⟨rfl, rfl⟩ | ⟨rfl, rfl⟩ <;> rfl
    have hcuts := hopening.trans ((h.cuts _ hclear).trans hclosing)
    simpa [Syntax.bracketed] using hcuts
  · intro depth
    rw [Syntax.bracketed, List.foldl_cons, List.foldl_append, h.balanced]
    rcases hpair with ⟨rfl, rfl⟩ | ⟨rfl, rfl⟩ | ⟨rfl, rfl⟩ <;>
      simp [Lexer.depthAfter, Symbol.opens, Symbol.closes]
  · rcases hpair with ⟨rfl, rfl⟩ | ⟨rfl, rfl⟩ | ⟨rfl, rfl⟩ <;> simp [Symbol.text]

/-- A text with a prefix sign in front. -/
theorem sign (sign : Symbol) (neutral : ∀ depth, Lexer.depthAfter depth (.symbol sign) = depth)
    (hstarts : ∃ k ∈ ks.head?, Parser.startsExpr k = true) (h : Spells t ks) :
    Spells (sign.text.toList ++ t) (.symbol sign :: ks) := by
  constructor
  · intro rest hrest
    obtain ⟨k, hhead, hk⟩ := hstarts
    obtain ⟨ks', rfl⟩ := List.head?_eq_some_iff.mp hhead
    have hcuts := h.cuts rest hrest
    have hscan := scanLexeme_symbol sign (hcuts.severed hk)
    rw [← String.length_toList] at hscan
    have hall := (Cuts.one hscan rfl).trans hcuts
    simpa using hall
  · intro depth
    rw [List.foldl_cons, neutral, h.balanced]
  · cases sign <;> simp [Symbol.text]

/-- Texts with commas between them. -/
theorem commas {texts : List String} {kss : List (List Lexeme)}
    (h : List.Forall₂ (fun (text : String) ks => Spells text.toList ks) texts kss) :
    Spells (Syntax.commas texts).toList (separated kss) := by
  induction h with
  | nil => exact nil
  | cons hfirst hrest ih =>
    cases hrest with
    | nil => simpa [Syntax.commas, separated] using hfirst
    | cons hsecond hothers =>
      have hall := (hfirst.marked .comma (by decide)).spaced ih (by simp)
      simp only [Syntax.commas, separated] at hall ⊢
      rw [String.intercalate_cons_cons, List.intercalate_cons_cons]
      simpa [Symbol.text] using hall

end Spells

end StagedScript.Syntax
