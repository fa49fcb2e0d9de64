import StagedScript.Proofs.Syntax.Legible
import StagedScript.Proofs.Syntax.Numeral

/-!
# The text of expressions

The printed text of an expression spells its lexemes if its names are names and
its formatted strings are single lexemes.
-/

namespace StagedScript.Syntax

open Text

/-! ## Literals and operators -/

theorem spells_symbol (sign : Symbol) (neutral : ∀ depth, Lexer.depthAfter depth (.symbol sign) =
    depth) {t : List Char} {ks : List Lexeme} (h : Spells t ks) :
    Spells (sign.text.toList ++ ' ' :: t) (.symbol sign :: ks) := by
  constructor
  · intro rest hrest
    have hscan : scanLexeme (sign.text.toList ++ ' ' :: (t ++ rest)) = _ :=
      scanLexeme_symbol sign rfl
    rw [← String.length_toList] at hscan
    have hcuts := (Cuts.one hscan rfl).trans (.blank (h.cuts rest hrest))
    simpa using hcuts
  · intro depth
    rw [List.foldl_cons, neutral, h.balanced]
  · cases sign <;> simp [Symbol.text]

/-- An operator and its second operand. -/
theorem BinaryOp.spells (op : BinaryOp) {t : List Char} {ks : List Lexeme} (h : Spells t ks) :
    Spells (op.text.toList ++ ' ' :: t) (op.lexemes ++ ks) := by
  cases op with
  | add => exact spells_symbol .plus (fun _ => rfl) h
  | sub => exact spells_symbol .minus (fun _ => rfl) h
  | mul => exact spells_symbol .star (fun _ => rfl) h
  | div => exact spells_symbol .slash (fun _ => rfl) h
  | floorDiv => exact spells_symbol .slashSlash (fun _ => rfl) h
  | mod => exact spells_symbol .percent (fun _ => rfl) h
  | pow => exact spells_symbol .starStar (fun _ => rfl) h
  | eq => exact spells_symbol .eqEq (fun _ => rfl) h
  | ne => exact spells_symbol .notEq (fun _ => rfl) h
  | lt => exact spells_symbol .lt (fun _ => rfl) h
  | gt => exact spells_symbol .gt (fun _ => rfl) h
  | le => exact spells_symbol .ltEq (fun _ => rfl) h
  | ge => exact spells_symbol .gtEq (fun _ => rfl) h
  | isIn => exact (Spells.keyword .inKw).spaced h (by simp)
  | notIn => exact (Spells.keyword .notKw).spaced ((Spells.keyword .inKw).spaced h (by simp)) (by simp)
  | and => exact (Spells.keyword .andKw).spaced h (by simp)
  | or => exact (Spells.keyword .orKw).spaced h (by simp)

theorem spells_formatted {parts : List FormattedPart} (h : PartsWorded parts) :
    Spells (formattedText parts) [.formatted (formattedBody parts)] :=
  .of_scan rfl (fun _ => rfl) h

theorem spells_signed (negative : Bool) {t : String} {ks : List Lexeme}
    (hstarts : ∃ k ∈ ks.head?, Parser.startsExpr k = true) (h : Spells t.toList ks) :
    Spells ((if negative then "-" else "") ++ t).toList (signLexemes negative ++ ks) := by
  cases negative with
  | false => simpa [signLexemes] using h
  | true => simpa [signLexemes, Symbol.text] using h.sign .minus (fun _ => rfl) hstarts

theorem spells_special (name : String) (t : String)
    (ht : t = "float(" ++ sourceQuoted '"' name ++ ")") :
    Spells t.toList (specialLexemes name) := by
  have hname : Spells "float".toList [.identifier "float"] := .name (by decide +kernel)
  have hquote : IsQuote '"' := .inl rfl
  have hbracket := (Spells.string hquote name).bracketed .leftParen .rightParen (by decide)
  have hall := hname.append hbracket fun rest _ => rfl
  subst ht
  simpa [specialLexemes, Symbol.text] using hall

/-- A whole number is written as its sign and the digits of its magnitude. -/
theorem toString_int (n : Int) : toString n = (if decide (n < 0) then "-" else "") ++
    String.ofList (Nat.toDigits 10 n.natAbs) := by
  rw [← String.toList_inj, toList_toString_int]
  by_cases hneg : n < 0 <;> simp [hneg]

theorem Constant.spells {quote : Char} (hquote : IsQuote quote) (c : Constant) :
    Spells (c.text quote).toList c.lexemes := by
  match c with
  | .none => exact .keyword .noneKw
  | .bool true => exact .keyword .trueKw
  | .bool false => exact .keyword .falseKw
  | .string s => exact .string hquote s
  | .int n =>
    have hbound : n.toInt.natAbs ≤ maxMagnitude := by
      have hle := n.le_toInt
      have hlt := n.toInt_lt
      simp only [maxMagnitude, Nat.pow_eq]
      omega
    have hdigits := Spells.integer hbound
    simp only [Constant.text, Constant.lexemes]
    have hsigned := spells_signed (decide (n.toInt < 0))
      (t := String.ofList (Nat.toDigits 10 n.toInt.natAbs)) ⟨_, rfl, rfl⟩ (by simpa using hdigits)
    rw [toString_int]
    exact hsigned
  | .float x =>
    cases hd : Decimal.decode x with
    | notANumber =>
      simp only [Constant.text, Constant.lexemes, Decimal.text, hd]
      exact spells_special "nan" _ (by decide +kernel)
    | infinite negative =>
      simp only [Constant.text, Constant.lexemes, Decimal.text, hd]
      have hspecial := spells_special "inf" "float(\"inf\")" (by decide +kernel)
      have hsigned := spells_signed negative
        (opensWith_specialLexemes "inf" Strength.atom).starts hspecial
      cases negative <;> exact hsigned
    | finite b =>
      simp only [Constant.text, Constant.lexemes, Decimal.text, hd]
      exact spells_signed _ ⟨_, rfl, rfl⟩ (spells_magnitude b)

/-! ## Expressions -/

theorem Spells.parens {t : String} {ks : List Lexeme} (h : Spells t.toList ks) :
    Spells (inParens t).toList (Syntax.bracketed .leftParen .rightParen ks) := by
  have hbracketed := h.bracketed .leftParen .rightParen (by decide)
  simpa [inParens, Symbol.text] using hbracketed

theorem Spells.tuple {texts : List String} {kss : List (List Lexeme)}
    (h : List.Forall₂ (fun (text : String) ks => Spells text.toList ks) texts kss) :
    Spells (tupleText texts).toList (tupleLexemes kss) := by
  cases h with
  | nil => exact (Spells.commas .nil).parens
  | cons hfirst hrest =>
    cases hrest with
    | nil =>
      have hall := (hfirst.marked .comma (by decide)).bracketed
        .leftParen .rightParen (by decide)
      simpa [tupleText, tupleLexemes, Symbol.text] using hall
    | cons hsecond hothers => exact (Spells.commas (.cons hfirst (.cons hsecond hothers))).parens

theorem Spells.closed {t : String} {ks : List Lexeme} (h : Spells t.toList ks) (weak : Prop)
    [Decidable weak] :
    Spells (if weak then inParens t else t).toList
      (if weak then Syntax.bracketed .leftParen .rightParen ks else ks) := by
  by_cases hweak : weak
  · rw [if_pos hweak, if_pos hweak]
    exact h.parens
  · rw [if_neg hweak, if_neg hweak]
    exact h

theorem startsDigit_name {id : String} (hid : isName id = true) (rest : List Char) :
    startsDigit (id.toList ++ rest) = false := by
  simp only [isName, Bool.and_eq_true] at hid
  cases hcs : id.toList with
  | nil => simp [hcs] at hid
  | cons c cs =>
    have hstart : isNameStart c = true := by simpa [hcs] using hid.1.1
    show c.isDigit = false
    rw [Bool.eq_false_iff]
    intro hdigit
    rw [isNameStart_of_isDigit hdigit] at hstart
    exact Bool.noConfusion hstart

theorem Spells.member {t : String} {ks : List Lexeme} (h : Spells t.toList ks) {field : String}
    (hfield : isName field = true) :
    Spells (t ++ "." ++ field).toList (ks ++ [.symbol .dot, .identifier field]) := by
  have hname := Spells.name hfield
  have hfieldDot : Spells ('.' :: field.toList) [.symbol .dot, .identifier field] := by
    constructor
    · intro rest hrest
      exact .cons (n := 1) rfl (by simp) rfl (hname.cuts rest hrest)
    · exact fun _ => rfl
    · simp
  have hall := h.append hfieldDot fun rest _ => by
    have hstart : startsDigit (field.toList ++ rest) = false := startsDigit_name hfield rest
    show isClear ('.' :: (field.toList ++ rest)) = true
    rw [isClear, hstart]
    rfl
  simpa using hall

/-- An index in brackets. -/
theorem Spells.subscript {t index : String} {ks ks' : List Lexeme} (h : Spells t.toList ks)
    (hindex : Spells index.toList ks') : Spells (t ++ "[" ++ index ++ "]").toList
      (ks ++ Syntax.bracketed .leftBracket .rightBracket ks') := by
  have hbrackets := hindex.bracketed .leftBracket .rightBracket (by decide)
  have hall := h.append hbrackets fun rest _ => rfl
  simpa [Symbol.text] using hall

/-- The text of a formatted string in the quote spells its lexeme. -/
def PartsSpelled (quote : Char) (parts : List FormattedPart) : Prop :=
  Spells ("f" ++ String.singleton quote ++ renderParts quote parts
    ++ String.singleton quote).toList [.formatted (formattedBody parts)]

variable {quote : Char}

mutual

/-- The text of an expression in either quote spells its lexemes if those of its formatted strings
do. -/
theorem Expr.spells_render (hquote : IsQuote quote) (least : Nat) (e : Expr)
    (he : e.Holds (fun _ => True) (PartsSpelled quote)) :
    Spells (e.render quote least).toList (e.lexemes least) := by
  rw [Expr.render.eq_def, Expr.lexemes.eq_def]
  dsimp only
  apply Spells.closed
  match e, he with
  | .name id _, he => exact .name he
  | .constant value _, _ => exact value.spells hquote
  | .formatted parts _, he => exact he
  | .tuple items _, he => exact .tuple (Items.spells_render hquote items he)
  | .list items _, he =>
    have h := (Spells.commas (Items.spells_render hquote items he)).bracketed
      .leftBracket .rightBracket (by decide)
    simpa [Symbol.text] using h
  | .dict entries _, he =>
    have h := (Spells.commas (Entries.spells_render hquote entries he)).bracketed
      .leftBrace .rightBrace (by decide)
    simpa [Symbol.text] using h
  | .member target field _, he =>
    exact (Expr.spells_render hquote Strength.atom target he.1).member he.2
  | .subscript target index _, he =>
    apply (Expr.spells_render hquote Strength.atom target he.1).subscript
    have hindex := Expr.spells_render hquote 0 index he.2
    match index, he.2, hindex with
    | .tuple (first :: second :: others) _, hitems, _ =>
      exact .commas (Items.spells_render hquote (first :: second :: others) hitems)
    | .tuple [] _, _, h | .tuple [_] _, _, h | .name _ _, _, h | .constant _ _, _, h
    | .formatted _ _, _, h | .list _ _, _, h | .dict _ _, _, h | .member _ _ _, _, h
    | .subscript _ _ _, _, h | .call _ _ _, _, h | .binary _ _ _ _, _, h | .unary _ _ _, _, h
    | .conditional _ _ _ _, _, h => exact h
  | .call callee args _, he =>
    have hcallee := Expr.spells_render hquote Strength.atom callee he.1
    have hargs := (Spells.commas (Items.spells_render hquote args he.2)).bracketed
      .leftParen .rightParen (by decide)
    have h := hcallee.append hargs fun rest _ => rfl
    simpa [inParens, Symbol.text] using h
  | .binary op left right _, he =>
    have hleft := Expr.spells_render hquote op.operandStrengths.1 left he.1
    have hright := Expr.spells_render hquote op.operandStrengths.2 right he.2
    have h := hleft.spaced (op.spells hright) (Expr.lexemes_ne_nil _ left)
    simpa using h
  | .unary .not operand _, he =>
    have hoperand := Expr.spells_render hquote Strength.negation operand he
    have h := (Spells.keyword .notKw).spaced hoperand (by simp)
    simpa [Keyword.text] using h
  | .unary .neg operand _, he =>
    have h := (Expr.spells_render hquote Strength.sign operand he).sign .minus (fun _ => rfl)
      (opensWith_lexemes Strength.sign operand).starts
    simpa [Symbol.text] using h
  | .unary .pos operand _, he =>
    have h := (Expr.spells_render hquote Strength.sign operand he).sign .plus (fun _ => rfl)
      (opensWith_lexemes Strength.sign operand).starts
    simpa [Symbol.text] using h
  | .conditional condition thenValue elseValue _, he =>
    have hcondition := Expr.spells_render hquote Strength.disjunction condition he.1
    have hthen := Expr.spells_render hquote Strength.disjunction thenValue he.2.1
    have helse := Expr.spells_render hquote Strength.conditional elseValue he.2.2
    have hlast := (Spells.keyword .elseKw).spaced helse (by simp)
    have hrest := hcondition.spaced hlast (Expr.lexemes_ne_nil _ condition)
    have h := hthen.spaced ((Spells.keyword .ifKw).spaced hrest (by simp))
      (Expr.lexemes_ne_nil _ thenValue)
    simpa [Keyword.text] using h

/-- The texts of such expressions spell their lexemes. -/
theorem Items.spells_render (hquote : IsQuote quote) (items : List Expr)
    (h : ItemsHold (fun _ => True) (PartsSpelled quote) items) :
    List.Forall₂ (fun (text : String) ks => Spells text.toList ks) (renderItems quote items)
      (itemLexemes items) := by
  match items, h with
  | [], _ => exact .nil
  | item :: items, h =>
    exact .cons (Expr.spells_render hquote 0 item h.1) (Items.spells_render hquote items h.2)

/-- The texts of dictionary entries with such expressions spell their lexemes. -/
theorem Entries.spells_render (hquote : IsQuote quote) (entries : List Entry)
    (h : EntriesHold (fun _ => True) (PartsSpelled quote) entries) :
    List.Forall₂ (fun (text : String) ks => Spells text.toList ks) (renderEntries quote entries)
      (entryLexemes entries) := by
  match entries, h with
  | [], _ => exact .nil
  | .pair key value :: entries, h =>
    have hkey := Expr.spells_render hquote 0 key h.1.1
    have hvalue := Expr.spells_render hquote 0 value h.1.2
    have hentry := (hkey.marked .colon (by decide)).spaced hvalue (by simp)
    refine .cons ?_ (Entries.spells_render hquote entries h.2)
    simpa [Symbol.text] using hentry

end

/-- The printed text of an expression with proper words spells its lexemes. -/
theorem Expr.spells (least : Nat) (e : Expr) (he : e.Worded) :
    Spells (e.render '"' least).toList (e.lexemes least) := by
  refine Expr.spells_render (.inl rfl) least e (Expr.Holds.mono (fun _ h => h) ?_ e he)
  intro parts hparts
  simpa [PartsSpelled, formattedText] using spells_formatted hparts

end StagedScript.Syntax
