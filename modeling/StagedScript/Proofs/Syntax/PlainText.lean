import StagedScript.Proofs.Syntax.LegibleReading
import StagedScript.Proofs.Syntax.Rows

/-!
# The text of plain trees

A tree without places has the text of the tree, and so has its plain form: the
text of a number is that of the expression that it is read as, the alternatives
of alternatives stand in one row, and an empty block is printed as `pass`.
-/

namespace StagedScript.Syntax

open Text

/-! ## Constants -/

/-- The expressions for constants have the texts of the constants, and string literals stay what
they are. -/
structure KeepsText (constant : Constant → Expr) : Prop where
  render : ∀ c least, (constant c).render '"' least = (Expr.literal c).render '"' least
  string : ∀ text, constant (.string text) = .string text
  eq_string : ∀ c text span, constant c = .constant (.string text) span → c = .string text
  ne_tuple : ∀ c items span, constant c ≠ .tuple items span

theorem keepsText_literal : KeepsText .literal where
  render _ _ := rfl
  string _ := rfl
  eq_string _ _ _ h := by
    cases h
    rfl
  ne_tuple _ _ _ := nofun

theorem render_literal (c : Constant) (quote : Char) (least : Nat) :
    (Expr.literal c).render quote least =
      if (Expr.literal c).strength < least then inParens (c.text quote) else c.text quote := by
  rw [Expr.literal, Expr.render]

theorem render_neg (e : Expr) (quote : Char) (least : Nat) :
    (Expr.unary .neg e .synthetic).render quote least =
      if Strength.sign < least then inParens ("-" ++ e.render quote Strength.sign)
      else "-" ++ e.render quote Strength.sign := by
  rw [Expr.render]
  rfl

/-- The call that yields a double that is not finite. -/
theorem render_special {text : String} {word : String}
    (hword : "float" ++ inParens (sourceQuoted '"' word) = text) (least : Nat) :
    (Expr.callOf (.named "float") [.string word]).render '"' least =
      if Strength.atom < least then inParens text else text := by
  have hname : (Expr.named "float").render '"' Strength.atom = "float" := by
    rw [Expr.named, Expr.render]
    rfl
  have hargs : commas (renderItems '"' [.string word]) = sourceQuoted '"' word := by
    rw [renderItems, renderItems, Expr.string, render_literal]
    exact String.intercalate_singleton
  rw [Expr.callOf, Expr.render, hname, hargs, hword]
  rfl

/-- A sign and a literal without one have the text of the literal with the sign. -/
theorem render_signed {c c' : Constant} (hstrength : (Expr.literal c).strength = Strength.sign)
    (hstrength' : (Expr.literal c').strength = Strength.atom) {quote : Char}
    (htext : c.text quote = "-" ++ c'.text quote) (least : Nat) :
    (Expr.unary .neg (.literal c') .synthetic).render quote least =
      (Expr.literal c).render quote least := by
  have hinner : (Expr.literal c').render quote Strength.sign = c'.text quote := by
    rw [render_literal, hstrength']
    rfl
  rw [render_neg, hinner, render_literal, hstrength, htext]

theorem strength_int (n : Int64) : (Expr.literal (.int n)).strength =
    if n < 0 then Strength.sign else Strength.atom :=
  rfl

theorem strength_float (x : Float) : (Expr.literal (.float x)).strength =
    if Decimal.isNegative x then Strength.sign else Strength.atom :=
  rfl

theorem Constant.render_plain_int (n : Int64) (least : Nat) :
    (Constant.int n).plain.render '"' least = (Expr.literal (.int n)).render '"' least := by
  rw [Constant.plain]
  split
  · next h =>
    have hvalue : (-n).toInt = -n.toInt := Int64.toInt_neg_of_ne h.2
    have hneg : n.toInt < 0 := (Int64.toInt_neg_iff n).mpr h.1
    have hpos : ¬ -n < 0 := fun hlt => by
      have := (Int64.toInt_neg_iff (-n)).mpr hlt
      omega
    refine render_signed ?_ ?_ ?_ least
    · rw [strength_int, if_pos h.1]
    · rw [strength_int, if_neg hpos]
    · show n.toInt.repr = "-" ++ (-n).toInt.repr
      rw [Int.repr_eq_if, Int.repr_eq_if, if_neg (by omega), if_pos (by omega), hvalue]
  · rfl

theorem Constant.render_plain_float (x : Float) (least : Nat) :
    (Constant.float x).plain.render '"' least = (Expr.literal (.float x)).render '"' least := by
  rw [Constant.plain]
  cases hx : Decimal.decode x with
  | notANumber =>
    have htext : (Constant.float x).text '"' = "float(\"nan\")" := by
      rw [Constant.text, Decimal.text, hx]
      rfl
    have hstrength : (Expr.literal (.float x)).strength = Strength.atom := by
      rw [strength_float, Decimal.isNegative, hx]
      rfl
    rw [render_literal, htext, hstrength]
    exact render_special (by decide +kernel) least
  | infinite negative =>
    have htext : "float" ++ inParens (sourceQuoted '"' "inf") = "float(\"inf\")" := by
      decide +kernel
    have hcall (least : Nat) := render_special htext least
    cases negative with
    | false =>
      have htext : (Constant.float x).text '"' = "float(\"inf\")" := by
        rw [Constant.text, Decimal.text, hx]
        rfl
      have hstrength : (Expr.literal (.float x)).strength = Strength.atom := by
        rw [strength_float, Decimal.isNegative, hx]
        rfl
      rw [render_literal, htext, hstrength]
      exact hcall least
    | true =>
      have htext : (Constant.float x).text '"' = "-" ++ "float(\"inf\")" := by
        rw [Constant.text, Decimal.text, hx]
        decide +kernel
      have hstrength : (Expr.literal (.float x)).strength = Strength.sign := by
        rw [strength_float, Decimal.isNegative, hx]
        rfl
      rw [render_literal, htext, hstrength]
      dsimp only
      rw [if_pos rfl, render_neg, hcall]
      rfl
  | finite b =>
    dsimp only
    split
    · next hneg =>
      have hdecode : Decimal.decode (-x) = .finite { b with negative := false } := by
        rw [Decimal.decode_neg hx, hneg]
        rfl
      refine render_signed ?_ ?_ ?_ least
      · rw [strength_float, Decimal.isNegative, hx]
        exact if_pos hneg
      · rw [strength_float, Decimal.isNegative, hdecode]
        rfl
      · rw [Constant.text, Constant.text, Decimal.text, Decimal.text, hx, hdecode]
        dsimp only
        rw [if_pos hneg, if_neg Bool.false_ne_true, String.empty_append]
        rfl
    · rfl

/-- A constant is read as itself, with a sign in front, or as a call. -/
theorem Constant.plain_cases (c : Constant) :
    c.plain = .literal c ∨ (∃ e, c.plain = .unary .neg e .synthetic) ∨
      ∃ callee args, c.plain = .callOf callee args := by
  match c with
  | .int n =>
    rw [Constant.plain]
    split
    · exact .inr (.inl ⟨_, rfl⟩)
    · exact .inl rfl
  | .float x =>
    rw [Constant.plain]
    split
    · exact .inr (.inr ⟨_, _, rfl⟩)
    · dsimp only
      split
      · exact .inr (.inl ⟨_, rfl⟩)
      · exact .inr (.inr ⟨_, _, rfl⟩)
    · split
      · exact .inr (.inl ⟨_, rfl⟩)
      · exact .inl rfl
  | .none | .bool _ | .string _ => exact .inl rfl

theorem keepsText_plain : KeepsText Constant.plain where
  render c least := by
    match c with
    | .int n => exact Constant.render_plain_int n least
    | .float x => exact Constant.render_plain_float x least
    | .none | .bool _ | .string _ => rfl
  string _ := rfl
  eq_string c text span h := by
    rcases c.plain_cases with hplain | ⟨e, hplain⟩ | ⟨callee, args, hplain⟩ <;>
      rw [hplain] at h <;> cases h
    rfl
  ne_tuple c items span h := by
    rcases c.plain_cases with hplain | ⟨e, hplain⟩ | ⟨callee, args, hplain⟩ <;>
      rw [hplain] at h <;> cases h

/-! ## Expressions -/

/-- The text of an index; a tuple of several items stands without parentheses. -/
def indexText (quote : Char) : Expr → String
  | .tuple (first :: second :: others) _ => commas (renderItems quote (first :: second :: others))
  | index => index.render quote 0

theorem render_subscript (target index : Expr) (span : Span) (quote : Char) (least : Nat) :
    (Expr.subscript target index span).render quote least =
      if Strength.atom < least then
        inParens (target.render quote Strength.atom ++ "[" ++ indexText quote index ++ "]")
      else target.render quote Strength.atom ++ "[" ++ indexText quote index ++ "]" := by
  rw [Expr.render.eq_def]
  rfl

/-- The names in the expression are names, and there is no formatted string in it. -/
abbrev Expr.HasNoFormatted : Expr → Prop :=
  Expr.Holds (fun _ => True) fun _ => False

section Expressions

variable {constant : Constant → Expr}

theorem indexText_strip (hkeeps : KeepsText constant) {index : Expr}
    (hindex : ∀ least, (index.strip constant).render '"' least = index.render '"' least)
    (hitems : ∀ items span, index = .tuple items span →
      renderItems '"' (stripItems constant items) = renderItems '"' items) :
    indexText '"' (index.strip constant) = indexText '"' index := by
  match index with
  | .tuple (first :: second :: others) span => exact congrArg commas (hitems _ span rfl)
  | .tuple [] _ | .tuple [_] _ | .name _ _ | .formatted _ _ | .list _ _ | .dict _ _
  | .member _ _ _ | .subscript _ _ _ | .call _ _ _ | .binary _ _ _ _ | .unary _ _ _
  | .conditional _ _ _ _ => exact hindex 0
  | .constant c span =>
    have hconstant : (Expr.constant c span).strip constant = constant c := rfl
    have hsame := hindex 0
    rw [hconstant] at hsame ⊢
    unfold indexText
    split
    · next heq => exact absurd heq (hkeeps.ne_tuple c _ _)
    · exact hsame

mutual

/-- An expression without formatted strings has the same text without places. -/
theorem Expr.render_strip (hkeeps : KeepsText constant) (e : Expr) (h : e.HasNoFormatted)
    (least : Nat) :
    (e.strip constant).render '"' least = e.render '"' least := by
  match e, h with
  | .name _ _, _ => rw [Expr.strip, Expr.named, Expr.render, Expr.render]; rfl
  | .constant c _, _ =>
    rw [Expr.strip, hkeeps.render, Expr.literal, Expr.render, Expr.render]
    cases c <;> rfl
  | .tuple items _, h =>
    rw [Expr.strip, Expr.render, Expr.render, renderItems_strip hkeeps items h]
    rfl
  | .list items _, h =>
    rw [Expr.strip, Expr.render, Expr.render, renderItems_strip hkeeps items h]
    rfl
  | .dict entries _, h =>
    rw [Expr.strip, Expr.render, Expr.render, renderEntries_strip hkeeps entries h]
    rfl
  | .member target field _, h =>
    rw [Expr.strip, Expr.render, Expr.render, Expr.render_strip hkeeps target h.1]
    rfl
  | .subscript target index _, h =>
    have hinside : indexText '"' (index.strip constant) = indexText '"' index := by
      refine indexText_strip hkeeps (fun least => Expr.render_strip hkeeps index h.2 least) ?_
      rintro items span rfl
      exact renderItems_strip hkeeps items h.2
    rw [Expr.strip, render_subscript, render_subscript, Expr.render_strip hkeeps target h.1, hinside]
  | .call callee args _, h =>
    rw [Expr.strip, Expr.render, Expr.render, Expr.render_strip hkeeps callee h.1,
      renderItems_strip hkeeps args h.2]
    rfl
  | .binary op left right _, h =>
    rw [Expr.strip, Expr.render, Expr.render]
    dsimp only
    rw [Expr.render_strip hkeeps left h.1, Expr.render_strip hkeeps right h.2]
    rfl
  | .unary .not operand _, h | .unary .neg operand _, h | .unary .pos operand _, h =>
    rw [Expr.strip, Expr.render, Expr.render, Expr.render_strip hkeeps operand h]
    rfl
  | .conditional condition thenValue elseValue _, h =>
    rw [Expr.strip, Expr.render, Expr.render, Expr.render_strip hkeeps condition h.1,
      Expr.render_strip hkeeps thenValue h.2.1, Expr.render_strip hkeeps elseValue h.2.2]
    rfl
-- The items of a tuple that is an index are a part of the subscript, but not of its own arguments.
termination_by sizeOf e
decreasing_by all_goals (subst_vars; simp +arith)

theorem renderItems_strip (hkeeps : KeepsText constant) (items : List Expr)
    (h : ItemsHold (fun _ => True) (fun _ => False) items) :
    renderItems '"' (stripItems constant items) = renderItems '"' items := by
  match items, h with
  | [], _ => rfl
  | item :: items, h =>
    exact congrArg₂ List.cons (Expr.render_strip hkeeps item h.1 0) (renderItems_strip hkeeps items h.2)
termination_by sizeOf items
decreasing_by all_goals simp +arith

theorem renderEntries_strip (hkeeps : KeepsText constant) (entries : List Entry)
    (h : EntriesHold (fun _ => True) (fun _ => False) entries) :
    renderEntries '"' (stripEntries constant entries) = renderEntries '"' entries := by
  match entries, h with
  | [], _ => rfl
  | .pair key value :: entries, h =>
    rw [stripEntries, renderEntries, renderEntries, Expr.render_strip hkeeps key h.1.1,
      Expr.render_strip hkeeps value h.1.2, renderEntries_strip hkeeps entries h.2]
termination_by sizeOf entries
decreasing_by all_goals simp +arith

end

end Expressions

/-! ## Patterns -/

section Patterns

variable {constant : Constant → Prop}

theorem Expr.render_bare_dotted (e : Expr) (h : e.IsDotted) (least : Nat) :
    e.bare.render '"' least = e.render '"' least := by
  match e, h with
  | .name _ _, _ =>
    rw [Expr.bare, Expr.strip, Expr.named, Expr.render, Expr.render]
    rfl
  | .member target field _, h =>
    have htarget : (target.strip .literal).render '"' Strength.atom =
        target.render '"' Strength.atom := Expr.render_bare_dotted target h.1 _
    rw [Expr.bare, Expr.strip, Expr.render, Expr.render, htarget]
    rfl

theorem Expr.print_bare_pattern {e : Expr} (h : e.IsPattern constant) : e.bare.print = e.print := by
  match e, h with
  | .constant c _, _ =>
    rw [Expr.bare, Expr.strip, Expr.literal, Expr.print, Expr.print, Expr.render, Expr.render]
    cases c <;> rfl
  | .member target field span, h => exact Expr.render_bare_dotted (.member target field span) h 0

mutual

theorem Pattern.print_bare (q : Pattern) (h : q.Holds constant) : q.bare.print = q.print := by
  match q, h with
  | .wildcard, _ | .capture _, _ => rfl
  | .value e, h => exact Expr.print_bare_pattern h
  | .sequence items, h => exact congrArg tupleText (printPatterns_bare items h)
  | .alternatives options, h =>
    exact congrArg (" | ".intercalate ·) (printPatterns_bare options h.2)

theorem printPatterns_bare (items : List Pattern) (h : PatternsHold constant items) :
    printPatterns (barePatterns items) = printPatterns items := by
  match items, h with
  | [], _ => rfl
  | item :: items, h =>
    exact congrArg₂ List.cons (Pattern.print_bare item h.1) (printPatterns_bare items h.2)

end

theorem printPatterns_eq_map (patterns : List Pattern) :
    printPatterns patterns = patterns.map Pattern.print := by
  induction patterns with
  | nil => rfl
  | cons q patterns ih => rw [printPatterns, ih, List.map_cons]

/-- Texts in one row instead of one text in front of others. -/
theorem intercalate_append_cons {sep first : String} {firsts rest rest' : List String}
    (hne : firsts ≠ []) (hfirst : sep.intercalate firsts = first)
    (hrest : sep.intercalate rest = sep.intercalate rest') (hnil : rest = [] ↔ rest' = []) :
    sep.intercalate (firsts ++ rest) = sep.intercalate (first :: rest') := by
  subst hfirst
  cases rest' with
  | nil => rw [hnil.mpr rfl, List.append_nil, String.intercalate_singleton]
  | cons text' texts' =>
    obtain ⟨text, texts, rfl⟩ :=
      List.exists_cons_of_ne_nil fun h => List.cons_ne_nil text' texts' (hnil.mp h)
    rw [String.intercalate_cons_cons, ← hrest]
    clear hrest hnil
    induction firsts with
    | nil => exact absurd rfl hne
    | cons text'' firsts ih =>
      cases firsts with
      | nil => rw [List.singleton_append, String.intercalate_cons_cons, String.intercalate_singleton]
      | cons _ _ =>
        rw [List.cons_append, List.cons_append, String.intercalate_cons_cons, ← List.cons_append,
          ih (List.cons_ne_nil _ _), String.intercalate_cons_cons]
        simp only [String.append_assoc]

theorem flatOptions_eq_nil {options : List Pattern} (h : PatternsHold constant options) :
    flatOptions options = [] ↔ options = [] := by
  match options, h with
  | [], _ => simp [flatOptions]
  | .alternatives [] :: _, h => exact absurd h.1.1 (by decide)
  | .alternatives (inner :: others) :: options, h =>
    have hinner : flatOptions (inner :: others) ≠ [] := fun hnil =>
      List.cons_ne_nil _ _ ((flatOptions_eq_nil h.1.2).mp hnil)
    rw [flatOptions.eq_def]
    simp [hinner]
  | .wildcard :: _, _ | .capture _ :: _, _ | .value _ :: _, _ | .sequence _ :: _, _ =>
    simp [flatOptions]

mutual

/-- A pattern has the same text with the alternatives of its alternatives in one row. -/
theorem Pattern.print_flat (q : Pattern) (h : q.Holds constant) : q.flat.print = q.print := by
  match q, h with
  | .wildcard, _ | .capture _, _ => rfl
  | .value e, h => exact Expr.print_bare_pattern h
  | .sequence items, h => exact congrArg tupleText (printPatterns_flat items h)
  | .alternatives options, h => exact print_flatOptions options h.2

theorem printPatterns_flat (items : List Pattern) (h : PatternsHold constant items) :
    printPatterns (flatPatterns items) = printPatterns items := by
  match items, h with
  | [], _ => rfl
  | item :: items, h =>
    exact congrArg₂ List.cons (Pattern.print_flat item h.1) (printPatterns_flat items h.2)

theorem print_flatOptions (options : List Pattern) (h : PatternsHold constant options) :
    " | ".intercalate (printPatterns (flatOptions options)) =
      " | ".intercalate (printPatterns options) := by
  have hone {option : Pattern} {options : List Pattern} (hoptions : PatternsHold constant options)
      (hflat : option.flat.print = option.print)
      (hothers : " | ".intercalate (printPatterns (flatOptions options)) =
        " | ".intercalate (printPatterns options)) :
      " | ".intercalate (printPatterns ([option.flat] ++ flatOptions options)) =
        " | ".intercalate (printPatterns (option :: options)) := by
    simp only [printPatterns_eq_map, List.map_append, List.map_cons] at hothers ⊢
    refine intercalate_append_cons (by simp) ?_ hothers (by simp [flatOptions_eq_nil hoptions])
    exact String.intercalate_singleton.trans hflat
  match options, h with
  | [], _ => rfl
  | .alternatives inner :: options, h =>
    have hinner := print_flatOptions inner h.1.2
    have hothers := print_flatOptions options h.2
    have hne : flatOptions inner ≠ [] := fun hnil => by
      rw [(flatOptions_eq_nil h.1.2).mp hnil] at h
      exact absurd h.1.1 (by decide)
    rw [flatOptions]
    simp only [printPatterns_eq_map, List.map_append, List.map_cons] at hinner hothers ⊢
    refine intercalate_append_cons (by simpa using hne) ?_ hothers (by simp [flatOptions_eq_nil h.2])
    rw [hinner, Pattern.print, printPatterns_eq_map]
  | .wildcard :: options, h | .capture _ :: options, h =>
    exact hone h.2 rfl (print_flatOptions options h.2)
  | .value e :: options, h =>
    exact hone h.2 (Expr.print_bare_pattern h.1) (print_flatOptions options h.2)
  | .sequence items :: options, h =>
    exact hone h.2 (congrArg tupleText (printPatterns_flat items h.1))
      (print_flatOptions options h.2)

end

end Patterns

/-! ## Statements -/

/-- The outline keeps the texts of constants and of patterns, and what stands for an empty block is
printed like one. -/
structure Outline.KeepsText (o : Outline) : Prop where
  constant : Syntax.KeepsText o.constant
  pattern : ∀ q : Pattern, q.Holds (fun _ => True) → (o.pattern q).print = q.print
  emptyBlock : ∀ layout level, bodyLines layout level o.emptyBlock = bodyLines layout level []
  /-- No conditional stands for an empty block. -/
  notElif : isElif o.emptyBlock = false

def Requirements.noFormatted : Requirements :=
  ⟨Expr.HasNoFormatted, Pattern.Holds fun _ => True, fun _ => True⟩

section Statements

variable {o : Outline} (ho : o.KeepsText)

include ho

theorem Expr.print_strip {e : Expr} (h : e.HasNoFormatted) : (e.strip o.constant).print = e.print :=
  Expr.render_strip ho.constant e h 0

theorem keywordText_strip (word : String) {value : Option Expr}
    (h : ∀ e ∈ value, e.HasNoFormatted) :
    keywordText word (value.map (Expr.strip o.constant)) = keywordText word value := by
  cases value with
  | none => rfl
  | some e => exact congrArg (word ++ " " ++ ·) (Expr.print_strip ho (h e rfl))

theorem Param.print_strip {p : Param} (h : p.Meets .noFormatted) : (p.strip o).print = p.print := by
  obtain ⟨name, annotation, default, span⟩ := p
  cases annotation with
  | none =>
    cases default with
    | none => rfl
    | some e' =>
      have he' : (e'.strip o.constant).print = e'.print := Expr.print_strip ho (h.default e' rfl)
      simp only [Param.strip, Param.print, Option.map_none, Option.map_some, he']
  | some e =>
    have he : (e.strip o.constant).print = e.print := Expr.print_strip ho (h.annotation e rfl)
    cases default with
    | none => simp only [Param.strip, Param.print, Option.map_none, Option.map_some, he]
    | some e' =>
      have he' : (e'.strip o.constant).print = e'.print := Expr.print_strip ho (h.default e' rfl)
      simp only [Param.strip, Param.print, Option.map_some, he, he']

theorem FunctionHeader.lines_strip {h : FunctionHeader} (hh : h.Meets .noFormatted) (level : Nat) :
    (h.strip o).lines level = h.lines level := by
  have hdecorators : (h.decorators.map (Expr.strip o.constant)).map
      (fun d => (⟨level, "@" ++ d.print⟩ : Line)) = h.decorators.map
        fun d => (⟨level, "@" ++ d.print⟩ : Line) := by
    rw [List.map_map]
    refine List.map_congr_left fun d hd => ?_
    rw [Function.comp_apply, Expr.print_strip ho (hh.decorators d hd)]
  have hparams : (h.params.map (Param.strip o)).map Param.print = h.params.map Param.print := by
    rw [List.map_map]
    exact List.map_congr_left fun p hp => Param.print_strip ho (hh.params p hp)
  have hreturn := hh.returnType
  obtain ⟨name, decorators, params, returnType, span⟩ := h
  simp only [FunctionHeader.strip, FunctionHeader.lines, hdecorators, hparams]
  cases returnType with
  | none => rfl
  | some type =>
    have htype : (type.strip o.constant).print = type.print := Expr.print_strip ho (hreturn type rfl)
    simp only [Option.map_some, htype]

end Statements

theorem Outline.keepsText_bare : Outline.bare.KeepsText where
  constant := keepsText_literal
  pattern q h := q.print_bare h
  emptyBlock _ _ := rfl
  notElif := rfl

theorem Outline.keepsText_plain : Outline.plain.KeepsText where
  constant := Syntax.keepsText_plain
  pattern q h := q.print_flat h
  emptyBlock layout level := by simp [Outline.plain, bodyLines, linesAfter, Stmt.lines]
  notElif := rfl

/-! ## Blocks -/

/-- The text of a string of several lines that the statement consists of. -/
def longString? : Stmt → Option String
  | .expr (.constant (.string text) _) => if text.contains '\n' then some text else none
  | _ => none

theorem bodyLines_cons (layout : Layout) (level : Nat) (s : Stmt) (stmts : List Stmt) :
    bodyLines layout level (s :: stmts) =
      (match longString? s with
        | some text => [⟨level, tripleQuoted text⟩]
        | none => s.lines layout level "if") ++ linesAfter layout level s stmts := by
  rw [bodyLines.eq_def]
  dsimp only
  split
  · next text span =>
    rw [longString?]
    split <;> rfl
  · next hother =>
    have hnone : longString? s = none := by
      unfold longString?
      split
      · exact absurd rfl (hother _ _)
      · rfl
    rw [hnone]

theorem stripStmts_eq_map (o : Outline) (stmts : List Stmt) :
    stripStmts o stmts = stmts.map (Stmt.strip o) := by
  induction stmts with
  | nil => rfl
  | cons s stmts ih => rw [stripStmts, ih, List.map_cons]

theorem Stmt.isComment_strip (o : Outline) (s : Stmt) : (s.strip o).isComment = s.isComment := by
  cases s with
  | branch _ _ block _ => cases block <;> rfl
  | _ => rfl

theorem Stmt.isFunction_strip (o : Outline) (s : Stmt) : (s.strip o).isFunction = s.isFunction := by
  cases s with
  | branch _ _ block _ => cases block <;> rfl
  | _ => rfl

theorem gapLines_strip (o : Outline) (layout : Layout) (level : Nat) (before : Stmt)
    (rest : List Stmt) :
    gapLines layout level (before.strip o) (stripStmts o rest) =
      gapLines layout level before rest := by
  have hdrop : (stripStmts o rest).dropWhile Stmt.isComment =
      (rest.dropWhile Stmt.isComment).map (Stmt.strip o) := by
    rw [stripStmts_eq_map, List.dropWhile_map]
    congr 2
    exact funext fun s => s.isComment_strip o
  have hgap : needsGap (before.strip o) (stripStmts o rest) = needsGap before rest := by
    unfold needsGap
    rw [hdrop, Stmt.isFunction_strip, Stmt.isComment_strip]
    cases rest.dropWhile Stmt.isComment with
    | nil => rfl
    | cons next rest => simp only [List.map_cons, Stmt.isFunction_strip]
  rw [gapLines, gapLines, hgap]

section Blocks

variable {o : Outline}

theorem longString?_strip (ho : o.KeepsText) (s : Stmt) :
    longString? (s.strip o) = longString? s := by
  match s with
  | .expr (.constant c span) =>
    show longString? (.expr (o.constant c)) = longString? (.expr (.constant c span))
    by_cases hc : ∃ text, c = .string text
    · obtain ⟨text, rfl⟩ := hc
      rw [ho.constant.string]
      rfl
    · have hplain : longString? (.expr (.constant c span)) = none := by
        cases c with
        | string text => exact absurd ⟨text, rfl⟩ hc
        | _ => rfl
      rw [hplain]
      unfold longString?
      split
      · next text span heq =>
        exact absurd ⟨text, ho.constant.eq_string c text span (Stmt.expr.inj heq)⟩ hc
      · rfl
  | .expr (.name _ _) | .expr (.formatted _ _) | .expr (.tuple _ _) | .expr (.list _ _)
  | .expr (.dict _ _) | .expr (.member _ _ _) | .expr (.subscript _ _ _) | .expr (.call _ _ _)
  | .expr (.binary _ _ _ _) | .expr (.unary _ _ _) | .expr (.conditional _ _ _ _)
  | .function _ _ | .branch _ _ none _ | .branch _ _ (some _) _ | .whileLoop _ _ _
  | .forLoop _ _ _ _ | .matchOn _ _ _ | .returnValue _ _ | .raise _ _ | .assign _ _ _
  | .augment _ _ _ _ | .importModules _ _ | .importNames _ _ _ _ | .comment _ | .pass
  | .breakLoop | .continueLoop => rfl

theorem isElif_strip (ho : o.KeepsText) (block : List Stmt) :
    isElif (stripBlock o block) = isElif block := by
  match block with
  | [] => exact ho.notElif
  | [.branch _ _ none _] | [.branch _ _ (some _) _] | [.function _ _] | [.whileLoop _ _ _]
  | [.forLoop _ _ _ _] | [.matchOn _ _ _] | [.returnValue _ _] | [.raise _ _] | [.assign _ _ _]
  | [.augment _ _ _ _] | [.importModules _ _] | [.importNames _ _ _ _] | [.expr _] | [.comment _]
  | [.pass] | [.breakLoop] | [.continueLoop] => rfl
  | s :: s' :: stmts => simp [stripBlock, stripStmts, isElif]

/-- The lines of a conditional that is continued by another one. -/
theorem Stmt.lines_elif {s : Stmt} (helif : isElif [s] = true) (layout : Layout) (level : Nat)
    (word : String) (condition : Expr) (thenBlock : List Stmt) (span : Span) :
    (Stmt.branch condition thenBlock (some [s]) span).lines layout level word =
      ⟨level, word ++ " " ++ condition.print ++ ":"⟩ :: bodyLines layout (level + 1) thenBlock ++
        s.lines layout level "elif" := by
  match s, helif with
  | .branch _ _ _ _, _ => rw [Stmt.lines]

/-- The lines of a conditional whose other block does not continue it. -/
theorem Stmt.lines_else {block : List Stmt} (hnot : isElif block = false) (layout : Layout)
    (level : Nat) (word : String) (condition : Expr) (thenBlock : List Stmt) (span : Span) :
    (Stmt.branch condition thenBlock (some block) span).lines layout level word =
      ⟨level, word ++ " " ++ condition.print ++ ":"⟩ :: bodyLines layout (level + 1) thenBlock ++
        ⟨level, "else:"⟩ :: bodyLines layout (level + 1) block := by
  rw [Stmt.lines.eq_def]
  dsimp only
  split
  · next heq => cases heq
  · next heq =>
    cases heq
    exact Bool.noConfusion hnot
  · next heq => rw [Option.some.inj heq]

mutual

/-- A statement without formatted strings has the same lines without places. -/
theorem Stmt.lines_strip (ho : o.KeepsText) (s : Stmt) (hs : s.Meets .noFormatted)
    (layout : Layout) (level : Nat) (word : String) :
    (s.strip o).lines layout level word = s.lines layout level word := by
  match s, hs with
  | .function header body, hs =>
    rw [Stmt.strip, Stmt.lines, Stmt.lines, FunctionHeader.lines_strip ho hs.1,
      bodyLines_strip ho body hs.2]
  | .branch condition thenBlock none span, hs =>
    rw [Stmt.strip, Stmt.lines, Stmt.lines, Expr.print_strip ho hs.1,
      bodyLines_strip ho thenBlock hs.2.1]
  | .branch condition thenBlock (some block) span, hs =>
    by_cases helif : isElif block = true
    · match block, helif, hs with
      | _ :: _ :: _, helif, _ => simp [isElif] at helif
      | [s], helif, hs =>
        have helif' : isElif [s.strip o] = true := (isElif_strip ho [s]).trans helif
        rw [Stmt.strip, stripBlock, stripStmts, Stmt.lines_elif helif, Stmt.lines_elif helif',
          Expr.print_strip ho hs.1, bodyLines_strip ho thenBlock hs.2.1,
          Stmt.lines_strip ho s hs.2.2.1]
    · have hnot : isElif block = false := Bool.eq_false_iff.mpr helif
      rw [Stmt.strip, Stmt.lines_else hnot, Stmt.lines_else ((isElif_strip ho block).trans hnot),
        Expr.print_strip ho hs.1, bodyLines_strip ho thenBlock hs.2.1,
        bodyLines_strip ho block hs.2.2]
  | .whileLoop condition body _, hs =>
    rw [Stmt.strip, Stmt.lines, Stmt.lines, Expr.print_strip ho hs.1, bodyLines_strip ho body hs.2]
  | .forLoop target iterable body _, hs =>
    rw [Stmt.strip, Stmt.lines, Stmt.lines, Expr.print_strip ho hs.1, Expr.print_strip ho hs.2.1,
      bodyLines_strip ho body hs.2.2]
  | .matchOn subject cases _, hs =>
    rw [Stmt.strip, Stmt.lines, Stmt.lines, Expr.print_strip ho hs.1, casesLines_strip ho cases hs.2]
  | .returnValue value _, hs | .raise value _, hs =>
    rw [Stmt.strip, Stmt.lines, Stmt.lines, keywordText_strip ho _ hs]
  | .assign target value _, hs =>
    rw [Stmt.strip, Stmt.lines, Stmt.lines, Expr.print_strip ho hs.1.1, Expr.print_strip ho hs.2]
  | .augment op target value _, hs =>
    rw [Stmt.strip, Stmt.lines, Stmt.lines, Expr.print_strip ho hs.2.1.1,
      Expr.print_strip ho hs.2.2]
  | .expr value, hs => rw [Stmt.strip, Stmt.lines, Stmt.lines, Expr.print_strip ho hs]
  | .importModules _ _, _ | .importNames _ _ _ _, _ | .comment _, _ | .pass, _ | .breakLoop, _
  | .continueLoop, _ => rfl

theorem bodyLines_strip (ho : o.KeepsText) (body : List Stmt) (h : StmtsMeet .noFormatted body)
    (layout : Layout) (level : Nat) :
    bodyLines layout level (stripBlock o body) = bodyLines layout level body := by
  match body, h with
  | [], _ => exact ho.emptyBlock layout level
  | s :: stmts, h =>
    rw [stripBlock, bodyLines_cons, bodyLines_cons, longString?_strip ho,
      Stmt.lines_strip ho s h.1, linesAfter_strip ho s stmts h.2]

theorem linesAfter_strip (ho : o.KeepsText) (before : Stmt) (stmts : List Stmt)
    (h : StmtsMeet .noFormatted stmts) (layout : Layout) (level : Nat) :
    linesAfter layout level (before.strip o) (stripStmts o stmts) =
      linesAfter layout level before stmts := by
  match stmts, h with
  | [], _ => rfl
  | next :: stmts, h =>
    rw [stripStmts, linesAfter, linesAfter, ← stripStmts, gapLines_strip,
      Stmt.lines_strip ho next h.1, linesAfter_strip ho next stmts h.2]

theorem casesLines_strip (ho : o.KeepsText) (cases : List Case)
    (h : CasesMeet .noFormatted cases) (layout : Layout) (level : Nat) :
    casesLines layout level (stripCases o cases) = casesLines layout level cases := by
  match cases, h with
  | [], _ => rfl
  | .on pattern body :: cases, h =>
    rw [stripCases, casesLines, casesLines, ho.pattern pattern h.1.1,
      bodyLines_strip ho body h.1.2, casesLines_strip ho cases h.2]

end

/-- A module without formatted strings has the same text without places. -/
theorem printModule_strip (ho : o.KeepsText) {body : Block} (h : StmtsMeet .noFormatted body)
    (layout : Layout) : printModule layout (stripBlock o body) = printModule layout body := by
  rw [printModule, printModule, bodyLines_strip ho body h]

end Blocks

/-- A module that is the plain form of another one up to places has its text. -/
theorem printModule_of_plain {body again : Block} (hbody : StmtsMeet .noFormatted body)
    (hagain : StmtsMeet .noFormatted again) (hsame : bareBlock again = stripBlock .plain body)
    (layout : Layout) : printModule layout again = printModule layout body :=
  calc
    printModule layout again = printModule layout (bareBlock again) :=
      (printModule_strip Outline.keepsText_bare hagain layout).symm
    _ = printModule layout (stripBlock .plain body) := congrArg (printModule layout) hsame
    _ = printModule layout body := printModule_strip Outline.keepsText_plain hbody layout

end StagedScript.Syntax
