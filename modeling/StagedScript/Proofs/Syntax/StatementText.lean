import StagedScript.Proofs.Syntax.Rows

/-!
# The text of statements

The printed lines of a statement are the lines of its rows.
-/

namespace StagedScript.Syntax

open Text

/-! ## Parts of statements -/

theorem Spells.dot {t : List Char} {ks : List Lexeme} (h : Spells t ks) :
    Spells ('.' :: t) (.symbol .dot :: ks) := by
  constructor
  · intro rest hrest
    exact .cons (n := 1) rfl (by simp) rfl (h.cuts rest hrest)
  · intro depth
    exact h.balanced depth
  · simp

theorem Spells.fields {t : String} {ks : List Lexeme} (h : Spells t.toList ks)
    (fields : List String) (hfields : ∀ field ∈ fields, isName field = true) :
    Spells (t.toList ++ fields.flatMap fun field => '.' :: field.toList)
      (ks ++ fieldLexemes fields) := by
  induction fields generalizing t ks with
  | nil => simpa [fieldLexemes] using h
  | cons field fields ih =>
    have hfirst := h.member (hfields field List.mem_cons_self)
    have hall := ih hfirst fun f hf => hfields f (List.mem_cons_of_mem _ hf)
    simpa [fieldLexemes] using hall

theorem IsDottedName.spells {name : String} (h : IsDottedName name) :
    Spells name.toList (dottedLexemes (nameParts name)) := by
  have htext := toList_nameParts name
  rw [IsDottedName] at h
  obtain ⟨first, others, hparts⟩ := List.exists_cons_of_ne_nil (nameParts_ne_nil name)
  rw [hparts] at htext h ⊢
  rw [htext]
  exact (Spells.name (h first List.mem_cons_self)).fields others
    fun part hpart => h part (List.mem_cons_of_mem _ hpart)

theorem dottedLexemes_ne_nil (name : String) : dottedLexemes (nameParts name) ≠ [] := by
  obtain ⟨first, others, hparts⟩ := List.exists_cons_of_ne_nil (nameParts_ne_nil name)
  rw [hparts]
  exact List.cons_ne_nil _ _

theorem Alias.spells {a : Alias} {ks : List Lexeme} (h : Spells a.name.toList ks) (hks : ks ≠ [])
    (hrename : a.ProperRename) : Spells a.print.toList (a.lexemes ks) := by
  rw [Alias.print, Alias.lexemes]
  cases hnew : a.rename with
  | none => simpa using h
  | some new =>
    have hname := Spells.name (hrename new hnew)
    have hall := h.spaced ((Spells.keyword .asKw).spaced hname (by simp)) hks
    simpa [Keyword.text] using hall

theorem spells_commas {α : Type} {items : List α} {text : α → String} {kinds : α → List Lexeme}
    (h : ∀ a ∈ items, Spells (text a).toList (kinds a)) :
    Spells (commas (items.map text)).toList (separated (items.map kinds)) := by
  apply Spells.commas
  rw [List.forall₂_map_left_iff, List.forall₂_map_right_iff, List.forall₂_same]
  exact h

theorem spells_operator (sign : Symbol) (neutral : ∀ depth, Lexer.depthAfter depth (.symbol sign) =
    depth) {t t' : String} {ks ks' : List Lexeme} (h : Spells t.toList ks) (hks : ks ≠ [])
    (h' : Spells t'.toList ks') :
    Spells (t ++ " " ++ sign.text ++ " " ++ t').toList (ks ++ .symbol sign :: ks') := by
  have hall := h.spaced (spells_symbol sign neutral h') hks
  simpa using hall

theorem Param.Meets.spells {p : Param} (hp : p.Meets .worded) : Spells p.print.toList p.lexemes := by
  have hname := Spells.name hp.name
  have hlabel := hname.marked .colon (by decide)
  rw [Param.print, Param.lexemes]
  cases hannotation : p.annotation with
  | none =>
    cases hdefault : p.default with
    | none => simpa [lexemesAfter] using hname
    | some default =>
      have hvalue := Expr.spells 0 default (hp.default default hdefault)
      have hequals := hvalue.sign .eq (fun _ => rfl) (opensWith_lexemes 0 default).starts
      have hall := hname.append hequals fun _ _ => rfl
      simpa [lexemesAfter, Symbol.text, Expr.print] using hall
  | some annotation =>
    have htype := Expr.spells 0 annotation (hp.annotation annotation hannotation)
    have hlabelled := hlabel.spaced htype (by simp)
    cases hdefault : p.default with
    | none => simpa [lexemesAfter, Symbol.text, Expr.print] using hlabelled
    | some default =>
      have hvalue := Expr.spells 0 default (hp.default default hdefault)
      have hall := hlabelled.spaced (spells_symbol .eq (fun _ => rfl) hvalue) (by simp)
      simpa [lexemesAfter, Symbol.text, Expr.print] using hall

theorem FunctionHeader.Meets.spells {h : FunctionHeader} (hh : h.Meets .worded) :
    Spells ("def " ++ h.name ++ inParens (commas (h.params.map Param.print)) ++
        (match h.returnType with
          | some type => " -> " ++ type.print
          | none => "") ++ ":").toList h.lexemes := by
  have hparams := (spells_commas fun p hp => (hh.params p hp).spells).parens
  have hcall := (Spells.name hh.name).append hparams fun _ _ => by
    simp only [inParens, String.toList_append]
    rfl
  have hstart := (Spells.keyword .defKw).spaced hcall (by simp)
  rw [FunctionHeader.lexemes]
  cases htype : h.returnType with
  | none =>
    have hall := hstart.marked .colon (by decide)
    simpa [lexemesAfter, Keyword.text, Symbol.text] using hall
  | some type =>
    have hresult := Expr.spells 0 type (hh.returnType type htype)
    have hall := (hstart.spaced (spells_symbol .arrow (fun _ => rfl) hresult) (by simp)).marked
      .colon (by decide)
    simpa [lexemesAfter, Keyword.text, Symbol.text, Expr.print] using hall

/-! ## Lines -/

/-- The lines are those of the rows, perhaps with blank lines among them. -/
inductive Renders : List Line → List Row → Prop
  | nil : Renders [] []
  | blank {lines : List Line} {rows : List Row} :
    Renders lines rows → Renders (⟨0, ""⟩ :: lines) rows
  | code {level : Nat} {text : String} {ks : List Lexeme} {lines : List Line} {rows : List Row}
      (spells : Spells text.toList ks) (ne_nil : ks ≠ []) :
    Renders lines rows → Renders (⟨level, text⟩ :: lines) (.code level ks :: rows)
  | comment {level : Nat} {text : String} {lines : List Line} {rows : List Row}
      (oneLine : '\n' ∉ text.toList) :
    Renders lines rows → Renders (⟨level, "#" ++ text⟩ :: lines) (.comment (trimEnd text) :: rows)

namespace Renders

variable {lines lines' : List Line} {rows rows' : List Row} {level : Nat}

theorem append (h : Renders lines rows) (h' : Renders lines' rows') :
    Renders (lines ++ lines') (rows ++ rows') := by
  induction h with
  | nil => exact h'
  | blank _ ih => exact .blank ih
  | code spells ne_nil _ ih => exact .code spells ne_nil ih
  | comment oneLine _ ih => exact .comment oneLine ih

theorem one {text : String} {ks : List Lexeme} (h : Spells text.toList ks) (hks : ks ≠ []) :
    Renders [⟨level, text⟩] [.code level ks] :=
  .code h hks .nil

theorem blanks (n : Nat) (h : Renders lines rows) :
    Renders (List.replicate n ⟨0, ""⟩ ++ lines) rows := by
  induction n with
  | zero => exact h
  | succ n ih => exact .blank ih

/-- The lines of a function before its body. -/
theorem header {h : FunctionHeader} (hh : h.Meets .worded) (level : Nat) :
    Renders (h.lines level) (h.rows level) := by
  rw [FunctionHeader.lines, FunctionHeader.rows]
  apply append
  · have hdecorators := hh.decorators
    revert hdecorators
    induction h.decorators with
    | nil => exact fun _ => nil
    | cons d ds ih =>
      intro hdecorators
      have hd := Expr.spells 0 d (hdecorators d List.mem_cons_self)
      have hsign := hd.sign .atSign (fun _ => rfl) (opensWith_lexemes 0 d).starts
      refine .code ?_ (List.cons_ne_nil _ _) (ih fun d hd => hdecorators d (List.mem_cons_of_mem _ hd))
      simpa [Symbol.text, Expr.print] using hsign
  · exact one hh.spells (List.cons_ne_nil _ _)

/-- The lines of a block are those of its statements, which are given. -/
theorem body {layout : Layout} {stmts : List Stmt}
    (h : ∀ s ∈ stmts, ∀ (level : Nat) (keyword : Keyword),
      Renders (s.lines layout level keyword.text) (s.rows level keyword)) (level : Nat) :
    Renders (bodyLines layout level stmts) (bodyRows level stmts) := by
  have hafter (before : Stmt) {rest : List Stmt}
      (hrest : ∀ s ∈ rest, Renders (s.lines layout level "if") (s.rows level .ifKw)) :
      Renders (linesAfter layout level before rest) (blockRows level .ifKw rest) := by
    induction rest generalizing before with
    | nil => exact nil
    | cons next rest ih =>
      have hnext := hrest next List.mem_cons_self
      have hothers := ih next fun s hs => hrest s (List.mem_cons_of_mem _ hs)
      rw [linesAfter, blockRows, List.append_assoc, gapLines]
      split
      · exact blanks _ (hnext.append hothers)
      · exact hnext.append hothers
  cases stmts with
  | nil => exact one (.keyword .passKw) (List.cons_ne_nil _ _)
  | cons first rest =>
    have hfirst := h first List.mem_cons_self level .ifKw
    have hrest := hafter first fun s hs => h s (List.mem_cons_of_mem _ hs) level .ifKw
    rw [bodyLines.eq_def, bodyRows]
    dsimp only
    refine append ?_ hrest
    split
    · next text span =>
      by_cases hlong : text.contains '\n' = true
      · rw [if_pos hlong]
        exact one (.tripleQuoted text) (List.cons_ne_nil _ _)
      · rw [if_neg hlong]
        exact hfirst
    · exact hfirst

theorem keyword {value : Option Expr} (word : Keyword) (h : ∀ e ∈ value, e.Worded) :
    Renders [⟨level, keywordText word.text value⟩] [.code level (keywordLexemes word value)] := by
  cases value with
  | none => exact one (.keyword word) (List.cons_ne_nil _ _)
  | some e =>
    have hall := (Spells.keyword word).spaced (Expr.spells 0 e (h e rfl)) (by simp)
    refine one ?_ (List.cons_ne_nil _ _)
    simpa [keywordText, keywordLexemes, Expr.print] using hall

end Renders

/-- A keyword, an expression and a colon. -/
theorem spells_keyword_colon (word : Keyword) {e : Expr} (he : e.Worded) :
    Spells (word.text ++ " " ++ e.print ++ ":").toList
      (.keyword word :: (e.lexemes 0 ++ [.symbol .colon])) := by
  have hcolon := (Expr.spells 0 e he).marked .colon (by decide)
  have hall := (Spells.keyword word).spaced hcolon (by simp)
  simpa [Symbol.text, Expr.print] using hall

theorem spells_dots {t : List Char} {ks : List Lexeme} (h : Spells t ks) (dots : Nat) :
    Spells (List.replicate dots '.' ++ t) (List.replicate dots (.symbol .dot) ++ ks) := by
  induction dots with
  | zero => exact h
  | succ dots ih => exact ih.dot

theorem Stmt.lines_branch (layout : Layout) (level : Nat) (keyword : String) (condition : Expr)
    (thenBlock block : List Stmt) (span : Span) :
    Stmt.lines layout level keyword (.branch condition thenBlock (some block) span) =
      ⟨level, keyword ++ " " ++ condition.print ++ ":"⟩ :: bodyLines layout (level + 1) thenBlock
        ++ if isElif block then block.flatMap (Stmt.lines layout level "elif")
          else ⟨level, "else:"⟩ :: bodyLines layout (level + 1) block := by
  rw [Stmt.lines.eq_def]
  dsimp only
  congr 1
  split
  · next heq => exact absurd heq (by simp)
  · next c t e span heq =>
    obtain rfl := Option.some.inj heq
    simp [isElif]
  · next block' hnot heq =>
    obtain rfl := Option.some.inj heq
    have helif : isElif block = false := by
      unfold isElif
      split
      · next c t e span => exact absurd rfl (hnot c t e span)
      · rfl
    simp [helif]

mutual

/-- The printed lines of a statement are those of its rows. -/
theorem Stmt.renders (s : Stmt) (hs : s.Meets .worded) (layout : Layout) (level : Nat)
    (keyword : Keyword) : Renders (s.lines layout level keyword.text) (s.rows level keyword) := by
  match s, hs with
  | .function header body, hs =>
    rw [Stmt.lines, Stmt.rows]
    exact (Renders.header hs.1 level).append (.body (Block.renders body hs.2 layout) (level + 1))
  | .branch condition thenBlock none span, hs =>
    rw [Stmt.lines, Stmt.rows]
    exact .append (.code (spells_keyword_colon keyword hs.1) (List.cons_ne_nil _ _)
      (.body (Block.renders thenBlock hs.2.1 layout) (level + 1))) .nil
  | .branch condition thenBlock (some block) span, hs =>
    have helse := Block.renders block hs.2.2 layout
    rw [Stmt.lines_branch, Stmt.rows, ← List.cons_append]
    refine .append (.code (spells_keyword_colon keyword hs.1) (List.cons_ne_nil _ _) ?_) ?_
    · exact .body (Block.renders thenBlock hs.2.1 layout) (level + 1)
    · by_cases helif : isElif block = true
      · rw [if_pos helif, if_pos helif]
        match block, helif, helse with
        | [s], _, helse =>
          have hrows := helse s List.mem_cons_self level .elifKw
          simpa [blockRows, Keyword.text] using hrows
        | s :: s' :: block, helif, _ => exact absurd helif (by simp [isElif])
      · rw [if_neg helif, if_neg helif]
        have hcolon := (Spells.keyword .elseKw).marked .colon (by decide)
        refine .code ?_ (List.cons_ne_nil _ _) (.body (Block.renders block hs.2.2 layout) (level + 1))
        simpa [Keyword.text, Symbol.text] using hcolon
  | .whileLoop condition body span, hs =>
    rw [Stmt.lines, Stmt.rows]
    exact .code (spells_keyword_colon .whileKw hs.1) (List.cons_ne_nil _ _)
      (.body (Block.renders body hs.2 layout) (level + 1))
  | .forLoop target iterable body span, hs =>
    have htarget := Expr.spells 0 target hs.1
    have hin := htarget.spaced (spells_keyword_colon .inKw hs.2.1) (target.lexemes_ne_nil 0)
    have hline := (Spells.keyword .forKw).spaced hin (by simp)
    rw [Stmt.lines, Stmt.rows]
    refine .code ?_ (List.cons_ne_nil _ _) (.body (Block.renders body hs.2.2 layout) (level + 1))
    simpa [Keyword.text, Expr.print] using hline
  | .matchOn subject cases span, hs =>
    rw [Stmt.lines, Stmt.rows]
    exact .code (spells_keyword_colon .matchKw hs.1) (List.cons_ne_nil _ _)
      (Cases.renders cases hs.2 layout (level + 1))
  | .returnValue value _, hs =>
    rw [Stmt.lines, Stmt.rows]
    exact .keyword .returnKw hs
  | .raise value _, hs =>
    rw [Stmt.lines, Stmt.rows]
    exact .keyword .raiseKw hs
  | .assign target value _, hs =>
    have hline := spells_operator .eq (fun _ => rfl) (Expr.spells 0 target hs.1.1)
      (target.lexemes_ne_nil 0) (Expr.spells 0 value hs.2)
    refine .one ?_ (by simp)
    simpa [Symbol.text, Expr.print] using hline
  | .augment op target value _, hs =>
    have hneutral : ∀ depth, Lexer.depthAfter depth (.symbol op.augmented) = depth := by
      intro depth
      cases op <;> rfl
    have htext : op.augmented.text = op.text ++ "=" := by
      obtain ⟨hop, -⟩ := hs
      simp only [List.mem_cons, List.not_mem_nil, or_false] at hop
      rcases hop with rfl | rfl | rfl <;> decide
    have hline := spells_operator op.augmented hneutral (Expr.spells 0 target hs.2.1.1)
      (target.lexemes_ne_nil 0) (Expr.spells 0 value hs.2.2)
    refine .one ?_ (by simp)
    simpa [htext, Expr.print] using hline
  | .importModules names _, hs =>
    have hnames := spells_commas fun a ha =>
      Alias.spells (hs.2 a ha).1.spells (dottedLexemes_ne_nil a.name) (hs.2 a ha).2
    have hline := (Spells.keyword .importKw).spaced hnames (by simp)
    refine .one ?_ (List.cons_ne_nil _ _)
    simpa [Keyword.text] using hline
  | .importNames dots module names _, hs =>
    have hnames := spells_commas fun a ha =>
      Alias.spells (Spells.name (hs.2.2.2 a ha).1) (List.cons_ne_nil _ _) (hs.2.2.2 a ha).2
    have hmodule : Spells (module.getD "").toList
        (module.elim [] fun name => dottedLexemes (nameParts name)) := by
      cases hname : module with
      | none => exact .nil
      | some name => exact (hs.2.1 name hname).spells
    have himport := (Spells.keyword .importKw).spaced hnames (by simp)
    have hne : List.replicate dots (Lexeme.symbol .dot) ++
        module.elim [] (fun name => dottedLexemes (nameParts name)) ≠ [] := by
      cases dots with
      | succ dots => simp [List.replicate_succ]
      | zero =>
        obtain ⟨name, rfl⟩ := Option.ne_none_iff_exists'.mp (hs.1 rfl)
        simpa using dottedLexemes_ne_nil name
    have hfrom := (spells_dots hmodule dots).spaced himport hne
    have hline := (Spells.keyword .fromKw).spaced hfrom (by simp)
    refine .one ?_ (List.cons_ne_nil _ _)
    simpa [Keyword.text] using hline
  | .expr value, hs => exact .one (Expr.spells 0 value hs) (value.lexemes_ne_nil 0)
  | .comment text, hs => exact .comment hs .nil
  | .pass, _ => exact .one (.keyword .passKw) (List.cons_ne_nil _ _)
  | .breakLoop, _ => exact .one (.keyword .breakKw) (List.cons_ne_nil _ _)
  | .continueLoop, _ => exact .one (.keyword .continueKw) (List.cons_ne_nil _ _)

/-- The printed lines of each of the statements are those of its rows. -/
theorem Block.renders (stmts : List Stmt) (h : StmtsMeet .worded stmts) (layout : Layout) :
    ∀ s ∈ stmts, ∀ (level : Nat) (keyword : Keyword),
      Renders (s.lines layout level keyword.text) (s.rows level keyword) := by
  match stmts, h with
  | [], _ => exact fun _ h => absurd h List.not_mem_nil
  | first :: stmts, h =>
    have hfirst := Stmt.renders first h.1 layout
    have hothers := Block.renders stmts h.2 layout
    intro s hs
    rcases List.mem_cons.mp hs with rfl | hs
    · exact hfirst
    · exact hothers s hs

/-- The printed lines of cases are those of their rows. -/
theorem Cases.renders (cases : List Case) (h : CasesMeet .worded cases) (layout : Layout)
    (level : Nat) : Renders (casesLines layout level cases) (caseRows level cases) := by
  match cases, h with
  | [], _ => exact .nil
  | .on pattern body :: cases, h =>
    have hbody := Renders.body (Block.renders body h.1.2 layout) (level + 1)
    have hcases := Cases.renders cases h.2 layout level
    have hcolon := (Pattern.spells pattern h.1.1).marked .colon (by decide)
    have hline := (Spells.keyword .caseKw).spaced hcolon (by simp)
    rw [casesLines, caseRows]
    refine .code ?_ (List.cons_ne_nil _ _) (.append hbody hcases)
    simpa [Keyword.text, Symbol.text] using hline

end

/-- The printed lines of a block are those of its rows. -/
theorem Body.renders (stmts : List Stmt) (h : StmtsMeet .worded stmts) (layout : Layout)
    (level : Nat) : Renders (bodyLines layout level stmts) (bodyRows level stmts) :=
  .body (Block.renders stmts h layout) level

end StagedScript.Syntax
