import StagedScript.Proofs.Syntax.Layout
import StagedScript.Proofs.Syntax.ModuleRoundTrip
import StagedScript.Proofs.Syntax.PlainText
import StagedScript.Proofs.Syntax.StatementGathering

/-!
# Comments stay where they are

A module that is read and printed keeps its comments in their order, except
those before and between the cases of match statements, which the parser skips.
The printed text is read as a module with the same comments at the same places,
which is printed as the same text.  This leaves out trees with a comment right
after a statement with a block, as after a block on the line of its keyword: the
printed text has the block on lines of its own, and the comment is read into it.
-/

namespace StagedScript.Syntax

open Text

def Vocabulary.kept : Vocabulary :=
  ⟨Decimal.ReadsBack, IsCommentText⟩

def Requirements.finitePatterns : Requirements :=
  ⟨fun _ => True, Pattern.Holds fun c => ∀ x, c = .float x → Decimal.isFinite x = true, fun _ => True⟩

/-- A literal of a pattern is legible if it is finite. -/
theorem Constant.legiblePattern_of_kept {c : Constant} (h : Vocabulary.kept.SignedLiteral c)
    (hfinite : ∀ x, c = .float x → Decimal.isFinite x = true) : c.LegiblePattern := by
  refine ⟨?_, hfinite⟩
  match c, h with
  | .float _, ⟨y, hy, .inl hx⟩ =>
    subst hx
    exact hy
  | .float _, ⟨y, hy, .inr hx⟩ =>
    subst hx
    obtain ⟨b, hb⟩ := Decimal.decode_of_isFinite (Decimal.isFinite_of_neg (hfinite _ rfl))
    exact Decimal.ReadsBack.neg hy hb
  | .none, _ | .bool _, _ | .int _, _ | .string _, _ => trivial

theorem Vocabulary.kept_readable : (kept.requirements.and .finitePatterns).Implies .readable where
  expr e h := by
    refine Expr.Holds.mono (fun c hc => ?_) (fun _ h => h.elim) e h.1
    match c, hc with
    | .float x, hc => exact hc
    | .none, _ | .bool _, _ | .int _, _ | .string _, _ => trivial
  pattern q h :=
    Pattern.Holds.mono (fun _ hc => Constant.legiblePattern_of_kept hc.1 hc.2) q
      (Pattern.Holds.and q h.1 h.2)
  comment _ h := h.1

theorem Vocabulary.requirements_noFormatted (v : Vocabulary) :
    v.requirements.Implies .noFormatted where
  expr e h := Expr.Holds.mono (fun _ _ => trivial) (fun _ h => h) e h
  pattern q h := Pattern.Holds.mono (fun _ _ => trivial) q h
  comment _ _ := trivial

/-- The tree of a text without formatted strings has none either. -/
theorem noFormatted_of_readModule {source : String} {body : Block} (hplain : HasNoFormatted source)
    (hread : readModule source = .ok body) : StmtsMeet .noFormatted body :=
  StmtsMeet.mono Vocabulary.lines.requirements_noFormatted body
    (meets_of_readModule hread fun ts hts => Vocabulary.lines_admits (hplain ts hts))

/-- Tokens are their kinds with a span for each position. -/
theorem exists_spans {ts : List Token} {ks : List Lexeme} (h : ts.map Token.kind = ks) :
    ∃ spans : Nat → Span, ts = ks.zipIdx.map fun k => ⟨k.1, spans k.2⟩ := by
  refine ⟨fun i => (ts.map Token.span)[i]?.getD .synthetic, ?_⟩
  subst h
  apply List.ext_getElem
  · simp
  · intro i hi _
    simp [List.getElem?_eq_getElem hi]

/-! ## Printed comments -/

/-- The comments of a text that is read and printed stay, except those at the gaps of match
statements, and the printed text is read as a tree with the same comments at the same places, which
has the same text. -/
theorem printed_comments_stay {source : String} {body : Block} (hplain : HasNoFormatted source)
    (hdoubles : DoublesReadBack source) (hread : readModule source = .ok body)
    (hregular : areRegular body = true) (htidy : areTidy body = true)
    (hpatterns : StmtsMeet .finitePatterns body) :
    ∃ ts ts' again, tokens source = .ok ts ∧ tokens (printModule {} body) = .ok ts' ∧
      readModule (printModule {} body) = .ok again ∧
      Fills (commentPlaces body) (tokenComments ts) ∧
      tokenComments ts' = (placedComments body).map Prod.snd ∧
      (none ∉ commentPlaces body → tokenComments ts' = tokenComments ts) ∧
      commentPlaces again = commentPlaces body ∧
      bareBlock again = stripBlock .plain body ∧
      printModule {} again = printModule {} body := by
  obtain ⟨ts, hts⟩ := tokens_of_readModule hread
  have hkept : StmtsMeet Vocabulary.kept.requirements body :=
    meets_of_readModule hread fun ts hts =>
      Vocabulary.admits_of_unformatted (hplain ts hts) (hdoubles ts hts) fun _ htext => htext
  have hreadable : StmtsMeet .readable body :=
    StmtsMeet.mono Vocabulary.kept_readable body (StmtsMeet.and body hkept hpatterns)
  have hrows : (bodyRows 0 body).all Row.unformatted = true :=
    Vocabulary.kept.unformatted_bodyRows hkept
  obtain ⟨again, hagain, hsame⟩ := readModule_printModule_tidy hreadable hrows hregular htidy
  have hwidth : 0 < (Layout.mk 4 true).indentWidth := by decide
  obtain ⟨ts', hts', hcomments⟩ := comments_of_printModule hwidth hreadable
  have hfills := comments_of_readModule hread hts
  refine ⟨ts, ts', again, hts, hts', hagain, hfills, hcomments, fun hgap => ?_,
    commentPlaces_of_plain hsame, hsame, ?_⟩
  · rw [hfills.eq_of_no_gap hgap]
    exact hcomments
  · have hprinted : HasNoFormatted (printModule {} body) := by
      intro us hus
      obtain ⟨us', hus', hkinds⟩ :=
        tokens_printModule hwidth (StmtsMeet.mono Requirements.worded_of_readable body hreadable)
      obtain rfl := Except.ok.inj (hus'.symm.trans hus)
      rw [hkinds]
      exact unformatted_rowKinds hrows 0
    exact printModule_of_plain (noFormatted_of_readModule hplain hread)
      (noFormatted_of_readModule hprinted hagain) hsame {}

/-- A comment in front of a conditional and one in its block. -/
theorem printed_comments_stay_branch : ∃ body,
    HasNoFormatted "# head\nif a:\n    # note\n    pass\n" ∧
    DoublesReadBack "# head\nif a:\n    # note\n    pass\n" ∧
    readModule "# head\nif a:\n    # note\n    pass\n" = .ok body ∧
    areRegular body = true ∧ areTidy body = true ∧ StmtsMeet .finitePatterns body ∧
    ∃ ts ts' again, tokens "# head\nif a:\n    # note\n    pass\n" = .ok ts ∧
      tokens (printModule {} body) = .ok ts' ∧ readModule (printModule {} body) = .ok again ∧
      Fills (commentPlaces body) (tokenComments ts) ∧
      tokenComments ts' = (placedComments body).map Prod.snd ∧
      (none ∉ commentPlaces body → tokenComments ts' = tokenComments ts) ∧
      commentPlaces again = commentPlaces body ∧
      bareBlock again = stripBlock .plain body ∧
      printModule {} again = printModule {} body := by
  have hworded : StmtsMeet .worded [.comment " head", .branch (.named "a") [.comment " note", .pass]
      none .synthetic] := by
    have hname : (Expr.named "a").Worded := show isName "a" = true by decide +kernel
    have hline {text : String} (h : '\n' ∉ text.toList) : (Stmt.comment text).Meets .worded := h
    exact ⟨hline (by decide), ⟨hname, ⟨hline (by decide), trivial, trivial⟩, trivial⟩, trivial⟩
  have htext : printModule {} [.comment " head", .branch (.named "a") [.comment " note", .pass] none
      .synthetic] = "# head\nif a:\n    # note\n    pass\n" := by decide +kernel
  obtain ⟨ts, hts, hkinds⟩ :=
    tokens_printModule (show 0 < (Layout.mk 4 true).indentWidth by decide) hworded
  rw [htext] at hts
  have hlist : ts.map Token.kind = [.comment " head", .keyword .ifKw, .identifier "a",
      .symbol .colon, .newline, .comment " note", .indent, .keyword .passKw, .newline, .dedent,
      .eof] := hkinds.trans (by decide +kernel)
  have hplain : HasNoFormatted "# head\nif a:\n    # note\n    pass\n" := by
    intro us hus
    obtain rfl := Except.ok.inj (hts.symm.trans hus)
    rw [hlist]
    rfl
  have hdoubles : DoublesReadBack "# head\nif a:\n    # note\n    pass\n" := by
    intro us hus
    obtain rfl := Except.ok.inj (hts.symm.trans hus)
    exact forall_of_kinds (P := fun k => ∀ x, k = .float x → Decimal.ReadsBack x) hlist (by simp)
  obtain ⟨spans, rfl⟩ := exists_spans hlist
  have hread : readModule "# head\nif a:\n    # note\n    pass\n" =
      .ok [.comment " head", .branch (.name "a" (spans 2)) [.comment " note", .pass] none (spans 1)] := by
    rw [readModule_of_tokens hts]
    rfl
  have hpatterns : StmtsMeet .finitePatterns
      [.comment " head", .branch (.name "a" (spans 2)) [.comment " note", .pass] none (spans 1)] :=
    ⟨trivial, ⟨trivial, ⟨trivial, trivial, trivial⟩, trivial⟩, trivial⟩
  exact ⟨_, hplain, hdoubles, hread, rfl, rfl, hpatterns,
    printed_comments_stay hplain hdoubles hread rfl rfl hpatterns⟩

/-- A comment in front of the first case of a match statement is not printed. -/
theorem comment_before_case_is_dropped : ∃ body ts ts',
    HasNoFormatted "match x:\n    # note\n    case 1:\n        pass\n" ∧
    readModule "match x:\n    # note\n    case 1:\n        pass\n" = .ok body ∧
    tokens "match x:\n    # note\n    case 1:\n        pass\n" = .ok ts ∧
    tokens (printModule {} body) = .ok ts' ∧
    tokenComments ts = [" note"] ∧ tokenComments ts' = [] := by
  have hname : (Expr.named "x").Worded := show isName "x" = true by decide +kernel
  have hcases : CasesMeet .worded [.on (.value (.literal (.int 1))) [.pass]] :=
    ⟨⟨trivial, trivial, trivial⟩, trivial⟩
  have hrenders : Renders (⟨0, _⟩ :: ⟨1, "#" ++ " note"⟩ :: _)
      (.code 0 _ :: .comment (trimEnd " note") :: _) :=
    .code (spells_keyword_colon .matchKw hname) (List.cons_ne_nil _ _)
      (.comment (by decide) (Cases.renders _ hcases {} 1))
  have hlexes : (Lexer.start "match x:\n    # note\n    case 1:\n        pass\n").Lexes
      (rowKinds 0 _) :=
    Lexer.lexes_of_renders (show 0 < (Layout.mk 4 true).indentWidth by decide) hrenders
      ⟨Nat.zero_le _, Nat.le_refl 1, Nat.le_refl 2, trivial⟩ rfl rfl rfl (by decide +kernel)
  obtain ⟨ts, hts, hkinds⟩ := tokens_of_lexes hlexes
  have hlist : ts.map Token.kind = [.keyword .matchKw, .identifier "x", .symbol .colon, .newline,
      .comment " note", .indent, .keyword .caseKw, .integer 1, .symbol .colon, .newline, .indent,
      .keyword .passKw, .newline, .dedent, .dedent, .eof] := hkinds.trans (by decide +kernel)
  have hplain : HasNoFormatted "match x:\n    # note\n    case 1:\n        pass\n" := by
    intro us hus
    obtain rfl := Except.ok.inj (hts.symm.trans hus)
    rw [hlist]
    rfl
  have hcomments : tokenComments ts = [" note"] := by
    rw [tokenComments, hlist]
    rfl
  obtain ⟨spans, rfl⟩ := exists_spans hlist
  have hread : readModule "match x:\n    # note\n    case 1:\n        pass\n" =
      .ok [.matchOn (.name "x" (spans 1)) [.on (.value (.constant (.int 1) (spans 7))) [.pass]]
        (spans 0)] := by
    rw [readModule_of_tokens hts]
    rfl
  have hreadable : StmtsMeet .readable
      [.matchOn (.name "x" (spans 1)) [.on (.value (.constant (.int 1) (spans 7))) [.pass]]
        (spans 0)] :=
    ⟨⟨hname, ⟨⟨trivial, fun _ hx => Constant.noConfusion hx⟩, trivial, trivial⟩, trivial⟩, trivial⟩
  obtain ⟨ts', hts', hprinted⟩ :=
    comments_of_printModule (show 0 < (Layout.mk 4 true).indentWidth by decide) hreadable
  exact ⟨_, _, ts', hplain, hread, hts, hts', hcomments, hprinted⟩

end StagedScript.Syntax
