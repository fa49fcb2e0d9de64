import StagedScript.Proofs.Syntax.LineLexing
import StagedScript.Proofs.Syntax.StatementAgreement
import StagedScript.Proofs.Syntax.Unformatted

/-!
# Layouts

A tree that is printed with two layouts gives two texts of the same lexemes, so
both are read as the same tree up to places or both are refused.
-/

namespace StagedScript.Syntax

open Text

def HasNoFormatted (source : String) : Prop :=
  ∀ ts, tokens source = .ok ts → unformatted (ts.map Token.kind) = true

/-- Every double may occur, and every comment that has one line. -/
def Vocabulary.lines : Vocabulary :=
  ⟨fun _ => True, fun text => '\n' ∉ text.toList⟩

theorem Vocabulary.lines_worded : lines.requirements.Implies .worded where
  expr e h := Expr.Holds.mono (fun _ _ => trivial) (fun _ h => h.elim) e h
  pattern q h := Pattern.Holds.mono (fun _ _ => trivial) q h
  comment _ h := h

/-- The lexemes of a text without formatted strings belong to a vocabulary of its doubles and of all
comments. -/
theorem Vocabulary.admits_of_unformatted {v : Vocabulary} {ts : List Token}
    (h : unformatted (ts.map Token.kind) = true)
    (hfloat : ∀ t ∈ ts, ∀ x, t.kind = .float x → v.float x)
    (hcomment : ∀ text, IsCommentText text → v.comment text) :
    ∀ t ∈ ts, t.kind.Proper → v.Admits t.kind := by
  rw [unformatted, List.all_map, List.all_eq_true] at h
  intro t ht hproper
  have hplain : (!t.kind.isFormatted) = true := h t ht
  have hx := hfloat t ht
  revert hplain hproper hx
  cases t.kind with
  | formatted _ => exact fun _ hplain => Bool.noConfusion hplain
  | identifier _ => exact fun hproper _ _ => hproper
  | comment text => exact fun hproper _ _ => hcomment text hproper
  | float x => exact fun _ _ hx => hx x rfl
  | _ => exact fun _ _ _ => trivial

/-- A lexeme of a text that is no formatted string belongs to the vocabulary. -/
theorem Vocabulary.lines_admits {ts : List Token} (h : unformatted (ts.map Token.kind) = true) :
    ∀ t ∈ ts, t.kind.Proper → lines.Admits t.kind :=
  admits_of_unformatted h (fun _ _ _ _ => trivial) fun _ htext => htext.1

/-- A tree that was read and is printed with two layouts gives two texts of the same lexemes, which
are both read, as the same tree up to places, or both refused. -/
theorem layouts_agree {source : String} {body : Block} (hplain : HasNoFormatted source)
    (hread : readModule source = .ok body) {layout layout' : Layout}
    (hwidth : 1 ≤ layout.indentWidth) (hwidth' : 1 ≤ layout'.indentWidth) :
    (∃ ts ts', tokens (printModule layout body) = .ok ts ∧
      tokens (printModule layout' body) = .ok ts' ∧ ts.map Token.kind = ts'.map Token.kind) ∧
    ((∃ again again', readModule (printModule layout body) = .ok again ∧
      readModule (printModule layout' body) = .ok again' ∧ bareBlock again = bareBlock again') ∨
    (∃ fault fault', readModule (printModule layout body) = .error fault ∧
      readModule (printModule layout' body) = .error fault')) := by
  have hbody : StmtsMeet Vocabulary.lines.requirements body :=
    meets_of_readModule hread fun ts hts => Vocabulary.lines_admits (hplain ts hts)
  have hworded : StmtsMeet .worded body := StmtsMeet.mono Vocabulary.lines_worded body hbody
  have hrows : (bodyRows 0 body).all Row.unformatted = true :=
    Vocabulary.lines.unformatted_bodyRows hbody
  obtain ⟨ts, hts, hkinds⟩ := tokens_printModule hwidth hworded
  obtain ⟨ts', hts', hkinds'⟩ := tokens_printModule hwidth' hworded
  have hsame : ts'.map Token.kind = ts.map Token.kind := hkinds'.trans hkinds.symm
  have hadmits : ∀ t ∈ ts, t.kind.Proper → Vocabulary.lines.Admits t.kind :=
    Vocabulary.lines_admits (by rw [hkinds]; exact unformatted_rowKinds hrows 0)
  refine ⟨⟨ts, ts', hts, hts', hsame.symm⟩, ?_⟩
  obtain ⟨again, again', hagain, hagain', htwin⟩ | ⟨fault, fault', hfault, hfault'⟩ :=
    readModule_twin hts hts' hadmits hsame
  · exact .inl ⟨again, again', hagain, hagain', htwin.same.symm⟩
  · exact .inr ⟨fault, fault', hfault, hfault'⟩

/-- A conditional, indented by four columns and by one. -/
theorem layouts_agree_branch : ∃ body, HasNoFormatted "if a:\n    pass\n" ∧
    readModule "if a:\n    pass\n" = .ok body ∧ 1 ≤ (⟨1, false⟩ : Layout).indentWidth ∧
    ((∃ ts ts', tokens (printModule {} body) = .ok ts ∧
      tokens (printModule ⟨1, false⟩ body) = .ok ts' ∧ ts.map Token.kind = ts'.map Token.kind) ∧
    ((∃ again again', readModule (printModule {} body) = .ok again ∧
      readModule (printModule ⟨1, false⟩ body) = .ok again' ∧ bareBlock again = bareBlock again') ∨
    (∃ fault fault', readModule (printModule {} body) = .error fault ∧
      readModule (printModule ⟨1, false⟩ body) = .error fault'))) := by
  have hname : (Expr.named "a").Worded := show isName "a" = true by decide +kernel
  have hworded : StmtsMeet .worded [.branch (.named "a") [.pass] none .synthetic] :=
    ⟨⟨hname, ⟨trivial, trivial⟩, trivial⟩, trivial⟩
  have htext : printModule {} [.branch (.named "a") [.pass] none .synthetic] =
      "if a:\n    pass\n" := by decide +kernel
  obtain ⟨ts, hts, hkinds⟩ :=
    tokens_printModule (show 0 < (Layout.mk 4 true).indentWidth by decide) hworded
  rw [htext] at hts
  have hplain : HasNoFormatted "if a:\n    pass\n" := by
    intro us hus
    obtain rfl := Except.ok.inj (hts.symm.trans hus)
    rw [hkinds]
    decide +kernel
  have hplaced : ((rowKinds 0 (bodyRows 0 [.branch (.named "a") [.pass] none .synthetic])).map
      (Token.mk · .synthetic)).map Token.kind = ts.map Token.kind := by
    rw [hkinds]
    decide +kernel
  obtain ⟨body, hread, -⟩ :=
    readModule_of_kinds hts (Vocabulary.lines_admits (hplain ts hts)) hplaced rfl
  exact ⟨body, hplain, hread, by decide,
    layouts_agree hplain hread (by decide) (by decide)⟩

end StagedScript.Syntax
