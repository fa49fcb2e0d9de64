import StagedScript.Proofs.Syntax.StatementSettling

/-!
# Reading ends

Reading a text gives a tree or an error about the text: the budgets that bound
the depth of nesting and the rounds of repetitions never run out.  At each place
of the text the nested readers take a token or fail, no repetition makes more
rounds than there are tokens left, and the text of a field is shorter than the
text that has the formatted string.
-/

namespace StagedScript.Syntax

open Text

/-- A part of complete tokens that has their end mark. -/
theorem Complete.suffix {admits : Lexeme → Prop} {ts us : List Token} (h : Complete admits ts)
    (hus : us <:+ ts) (hne : us ≠ []) : Complete admits us := by
  induction h with
  | last span =>
    obtain rfl | hnil := List.suffix_cons_iff.mp hus
    · exact .last span
    · exact absurd (List.suffix_nil.mp hnil) hne
  | cons inside admitted hothers ih =>
    obtain rfl | hus := List.suffix_cons_iff.mp hus
    · exact .cons inside admitted hothers
    · exact ih hus

namespace Parser

/-- The run does not exhaust a budget.  If it succeeds it takes as many tokens as the value shows
and leaves the others, up to the end mark. -/
def Ends {α : Type} (taken : α → Nat) (ts : List Token) :
    Except SyntaxFault (α × List Token) → Prop
  | .ok (a, rest) => Complete anyHead rest ∧ rest <:+ ts ∧ rest.length + taken a ≤ ts.length
  | .error fault => fault ≠ .exhausted

theorem Settles.ends {α : Type} {taken : α → Nat} {x : Parser α} {ts : List Token} {rounds : Nat}
    (h : Settles anyHead ts.length (load ts) taken x x) (hts : Complete anyHead ts)
    (hrounds : ts.length < rounds) : Ends taken ts (x rounds ts) := by
  have hout := h rounds rounds ts hts (fun _ _ => trivial) (Nat.le_refl _) (Nat.le_refl _) hrounds
    hrounds
  generalize x rounds ts = out at hout
  cases hout with
  | ok complete left fits => exact ⟨complete, left, fits⟩
  | error inside => exact inside

/-- The readers of nested parts and of the items of lists take a token each time they succeed. -/
structure CallsEnd (depth rounds : Nat) (ts : List Token) : Prop where
  expr : Ends (fun _ => 1) ts ((exprParsers depth).expr rounds ts)
  signed : Ends (fun _ => 1) ts ((exprParsers depth).signed rounds ts)
  negation : Ends (fun _ => 1) ts ((exprParsers depth).negation rounds ts)
  pattern : Ends (fun _ => 1) ts (bounded (patternWithin (exprParsers depth)) rounds ts)
  stmt : Ends (fun _ => 1) ts (stmtWithin (exprParsers depth) depth rounds ts)
  entry : Ends (fun _ => 1) ts (dictEntry (exprParsers depth) rounds ts)
  target : Ends (fun _ => 1) ts (postfixExpr (exprParsers depth) rounds ts)
  alternative {n : Nat} (hn : ts.length ≤ n) : Ends (fun _ => 1) ts
    (closedPattern (exprParsers depth) (patternWithin (exprParsers depth) n) rounds ts)
  importedModule : Ends (fun _ => 1) ts (aliasOf dottedName rounds ts)
  importedName :
    Ends (fun _ => 1) ts (aliasOf (return (← identifier "imported name").1) rounds ts)

/-- The repetitions end within `n` rounds. -/
structure LoopsEnd (depth rounds n : Nat) (ts : List Token) : Prop where
  /-- Items that each take a token, with a symbol between them. -/
  itemsBefore {α : Type} {item : Parser α}
    (hitem : Settles anyHead ts.length (load ts) (fun _ => 1) item item) (stop : Symbol) :
    Ends (fun _ => 0) ts (itemsBefore stop item n rounds ts)
  itemsAfter {α : Type} {item : Parser α}
    (hitem : Settles anyHead ts.length (load ts) (fun _ => 1) item item) (separator : Symbol)
    (starts : Lexeme → Bool) : Ends (fun _ => 0) ts (itemsAfter separator starts item n rounds ts)
  /-- Operators and what follows an atom, each with a token. -/
  extendAll {extend : Expr → Parser (Option Expr)}
    (hextend : ∀ e, Settles anyHead ts.length (load ts) takenBy (extend e) (extend e)) (e : Expr) :
    Ends (fun _ => 0) ts (extendAll extend n e rounds ts)
  adjacentStrings : Ends (fun _ => 0) ts (adjacentStrings n rounds ts)
  fieldsAfter (e : Expr) : Ends (fun _ => 0) ts (fieldsAfter n e rounds ts)
  dottedTail : Ends (fun _ => 0) ts (dottedTail n rounds ts)
  leadingDots : Ends (fun _ => 0) ts (leadingDots n rounds ts)
  comments : Ends (fun _ => 0) ts (comments n rounds ts)
  stmtsUntil (stop : Lexeme) :
    Ends (fun _ => 0) ts (stmtsUntil stop (stmtWithin (exprParsers depth) depth) n rounds ts)
  paramsAfter (sawDefault : Bool) :
    Ends (fun _ => 0) ts (paramsAfter (exprParsers depth) sawDefault n rounds ts)
  decorators : Ends (fun _ => 0) ts (decorators (exprParsers depth) n rounds ts)
  branch : Ends (fun _ => 1) ts
    (branch (exprParsers depth) (stmtWithin (exprParsers depth) depth) n rounds ts)
  cases : Ends (fun _ => 0) ts
    (cases (exprParsers depth) (stmtWithin (exprParsers depth) depth) n rounds ts)

section Places

variable {ts : List Token} {depth rounds n : Nat} (hts : Complete anyHead ts)
  (hdepth : load ts < depth) (hrounds : ts.length < rounds)

include hts hdepth hrounds

theorem callsEnd : CallsEnd depth rounds ts := by
  have hp : ExprSettles (load ts + 1) (exprParsers depth) (exprParsers depth) :=
    exprSettles _ depth depth hdepth hdepth
  have hp' : ExprSettles (load ts) (exprParsers depth) (exprParsers depth) :=
    hp.restrict (Nat.le_succ _)
  have hpattern : Settles anyHead ts.length (load ts) (fun _ => 1)
      (bounded (patternWithin (exprParsers depth))) (bounded (patternWithin (exprParsers depth))) :=
    .bounded fun n n' s' hn hn' _ => settles_patternWithin hp' s' n n' hn hn'
  have hname : Settles anyHead ts.length (load ts) (fun _ => 1)
      (return (← identifier "imported name").1 : Parser String)
      (return (← identifier "imported name").1) := .identifier_bind fun _ _ => .pure rfl
  exact {
    expr := (hp.expr _).ends hts hrounds
    signed := (hp.signed _).ends hts hrounds
    negation := (hp.negation _).ends hts hrounds
    pattern := hpattern.ends hts hrounds
    stmt := (settles_stmtWithin _ hp depth depth (Nat.le_of_lt hdepth) (Nat.le_of_lt hdepth) _).ends
      hts hrounds
    entry := (settles_dictEntry hp).ends hts hrounds
    target := (settles_postfixExpr hp').ends hts hrounds
    alternative := fun {n} hn => (settles_closedPattern hp' (settles_patternWithin hp' _ n n
      (Nat.le_trans (Nat.sub_le _ 1) hn) (Nat.le_trans (Nat.sub_le _ 1) hn))).ends hts hrounds
    importedModule := (settles_aliasOf settles_dottedName).ends hts hrounds
    importedName := (settles_aliasOf hname).ends hts hrounds }

theorem loopsEnd (hn : ts.length ≤ n) : LoopsEnd depth rounds n ts := by
  have hp : ExprSettles (load ts + 1) (exprParsers depth) (exprParsers depth) :=
    exprSettles _ depth depth hdepth hdepth
  have hstmt (s : Nat) : Settles anyHead s (load ts) (fun _ => 1)
      (stmtWithin (exprParsers depth) depth) (stmtWithin (exprParsers depth) depth) :=
    settles_stmtWithin _ hp depth depth (Nat.le_of_lt hdepth) (Nat.le_of_lt hdepth) s
  have hinner (s : Nat) : Settles anyHead s (load ts - 1) (fun _ => 1)
      (stmtWithin (exprParsers depth) depth) (stmtWithin (exprParsers depth) depth) :=
    (hstmt s).restrict (Nat.le_refl s) (Nat.sub_le _ 1)
  have hle := Nat.le_refl (load ts)
  exact {
    itemsBefore := fun hitem stop =>
      (settles_itemsBefore hitem stop n n _ _ hn hn (Nat.le_refl _) hle).ends hts hrounds
    itemsAfter := fun hitem separator starts =>
      (settles_itemsAfter hitem separator starts n n _ _ hn hn (Nat.le_succ _) (Nat.le_succ _)).ends
        hts hrounds
    extendAll := fun hextend e => (settles_extendAll (fun s' e hs =>
      (hextend e).restrict hs hle) n n _ _ hn hn (Nat.le_refl _) hle e).ends hts hrounds
    adjacentStrings := (settles_adjacentStrings n n _ hn hn).ends hts hrounds
    fieldsAfter := fun e => (settles_fieldsAfter n n _ hn hn _ e).ends hts hrounds
    dottedTail := (settles_dottedTail n n _ hn hn _).ends hts hrounds
    leadingDots := (settles_leadingDots n n _ hn hn _).ends hts hrounds
    comments := (settles_comments n n _ hn hn _).ends hts hrounds
    stmtsUntil := fun stop => (settles_stmtsUntil hstmt stop n n _ _ hn hn hle).ends hts hrounds
    paramsAfter := fun sawDefault => (settles_paramsAfter (hp.restrict (Nat.le_succ _)) n n _ _ hn
      hn hle sawDefault).ends hts hrounds
    decorators := (settles_decorators (hp.restrict (Nat.le_succ _)) n n _ _ hn hn hle).ends hts
      hrounds
    branch := (settles_branch hinner hp n n _ _ hn hn hle).ends hts hrounds
    cases := (settles_cases hinner hp n n _ _ hn hn hle).ends hts hrounds }

end Places

end Parser

/-- The text stands in a field of a formatted string of the source. -/
def IsFieldOf (text source : String) : Prop :=
  ∃ ts span body written, tokens source = .ok ts ∧ ⟨.formatted body, span⟩ ∈ ts ∧
    Piece.field text written ∈ (bodyPieces body).1

theorem IsFieldOf.length_lt {text source : String} (h : IsFieldOf text source) :
    text.length < source.length := by
  obtain ⟨ts, span, body, written, hts, hbody, hfield⟩ := h
  have hshort := length_field hfield
  have hload : 4 * (body.length + 1) ≤ load ts := load_le_of_mem hbody
  have hsource := load_tokens hts
  omega

/-- Fields of fields are shorter still. -/
theorem length_lt_of_nested {text source : String} (h : Relation.TransGen IsFieldOf text source) :
    text.length < source.length := by
  induction h with
  | single h => exact h.length_lt
  | tail _ h ih => exact Nat.lt_trans ih h.length_lt

section Budgets

variable {source : String} {ts : List Token} (hts : tokens source = .ok ts) {depth rounds : Nat}
  (hdepth : nestingBound source ≤ depth) (hrounds : ts.length < rounds)

include hts

theorem load_lt_nestingBound : load ts < nestingBound source := by
  have hload := load_tokens hts
  rw [nestingBound]
  omega

theorem readExpr_of_tokens :
    readExpr source = (Parser.wholeExpr (Parser.exprParsers (nestingBound source)).expr
      (ts.length + 1) ts).map Prod.fst := by
  show (tokens source >>= _) = _
  rw [hts]
  rfl

include hdepth hrounds

theorem readModule_settles :
    (Parser.moduleBody depth rounds ts).map Prod.fst = readModule source ∧
      readModule source ≠ .error .exhausted := by
  have hload := load_lt_nestingBound hts
  have hbody : Parser.Settles Parser.anyHead ts.length (load ts) (fun _ => 0)
      (Parser.moduleBody (nestingBound source)) (Parser.moduleBody depth) :=
    Parser.settles_moduleBody hload (Nat.lt_of_lt_of_le hload hdepth)
  obtain ⟨hsame, hinside⟩ := Parser.value_settles hbody (Parser.complete_of_tokens hts)
    (Nat.lt_succ_self _) hrounds
  rw [readModule_of_tokens hts]
  exact ⟨hsame.symm, hinside⟩

theorem readExpr_settles :
    (Parser.wholeExpr (Parser.exprParsers depth).expr rounds ts).map Prod.fst = readExpr source ∧
      readExpr source ≠ .error .exhausted := by
  have hload := load_lt_nestingBound hts
  have hp := Parser.exprSettles (load ts + 1) (nestingBound source) depth hload
    (Nat.lt_of_lt_of_le hload hdepth)
  obtain ⟨hsame, hinside⟩ := Parser.value_settles (Parser.settles_wholeExpr (hp.expr ts.length))
    (Parser.complete_of_tokens hts) (Nat.lt_succ_self _) hrounds
  rw [readExpr_of_tokens hts]
  exact ⟨hsame.symm, hinside⟩

end Budgets

/-- Reading the text ends, as a module and as an expression. -/
structure ReadingEnds (source : String) : Prop where
  /-- There is a tree or an error about the text. -/
  module : readModule source ≠ .error .exhausted
  expr : readExpr source ≠ .error .exhausted
  /-- It is the same with larger budgets. -/
  budgets {ts : List Token} (hts : tokens source = .ok ts) {depth rounds : Nat}
    (hdepth : nestingBound source ≤ depth) (hrounds : ts.length < rounds) :
    (Parser.moduleBody depth rounds ts).map Prod.fst = readModule source ∧
      (Parser.wholeExpr (Parser.exprParsers depth).expr rounds ts).map Prod.fst = readExpr source
  /-- From each place on, a budget that the remaining tokens allow for is enough. -/
  places {ts us : List Token} (hts : tokens source = .ok ts) (hus : us <:+ ts) (hne : us ≠ [])
    {depth rounds n : Nat} (hdepth : load us < depth) (hrounds : us.length < rounds)
    (hn : us.length ≤ n) : Parser.CallsEnd depth rounds us ∧ Parser.LoopsEnd depth rounds n us
  /-- The texts of fields, nested to any depth, are shorter. -/
  fields {text : String} (hnested : Relation.TransGen IsFieldOf text source) :
    text.length < source.length

theorem reading_ends (source : String) : ReadingEnds source := by
  have hle := Nat.le_refl (nestingBound source)
  refine ⟨?module, ?expr, fun hts _ _ hdepth hrounds =>
    ⟨(readModule_settles hts hdepth hrounds).1, (readExpr_settles hts hdepth hrounds).1⟩,
    fun hts hus hne _ _ _ hdepth hrounds hn => ?places, length_lt_of_nested⟩
  case module =>
    cases hts : tokens source with
    | ok ts => exact (readModule_settles hts hle (Nat.lt_succ_self _)).2
    | error fault =>
      rw [readModule, hts]
      exact fun h => tokens_inside source (hts.trans (congrArg Except.error (Except.error.inj h)))
  case expr =>
    cases hts : tokens source with
    | ok ts => exact (readExpr_settles hts hle (Nat.lt_succ_self _)).2
    | error fault =>
      show (tokens source >>= _) ≠ _
      rw [hts]
      exact fun h => tokens_inside source (hts.trans (congrArg Except.error (Except.error.inj h)))
  case places =>
    have hcomplete := (Parser.complete_of_tokens hts).suffix hus hne
    exact ⟨Parser.callsEnd hcomplete hdepth hrounds, Parser.loopsEnd hcomplete hdepth hrounds hn⟩

end StagedScript.Syntax
