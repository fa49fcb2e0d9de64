import StagedScript.Builtin.Table
import StagedScript.Proofs.Rewriting.Literal
import StagedScript.Rewriting.Annotation

/-!
# Annotations read back

The two truth values have an annotation of their own.  Every other annotation is
legible, and its value, as it is built and as it is read back, is the tuple of the
values that it lists.  A tuple that is the only value is listed by its items: as an
index it stands for them, with or without parentheses.
-/

namespace StagedScript

open Run (bind_of_ok)
open Syntax (Constant Expr)
open Evaluation

namespace Rewriting

open Datum (AreLiteral)

variable {function : String} {set : List Datum} {digest : Digest} {a : Annotation}

/-! ## Accepted values -/

/-- The two truth values, in either order. -/
def IsTruth (set : List Datum) : Prop :=
  set = [.constant (.bool true), .constant (.bool false)] ∨
    set = [.constant (.bool false), .constant (.bool true)]

/-- A truth value is found nowhere else, whatever the hash function. -/
theorem finds_bool_iff {b : Bool} {d : Datum} :
    (Datum.hashing digest).finds (.constant (.bool b)) d = true ↔ d = .constant (.bool b) := by
  constructor
  · intro hfinds
    have hequal : (Datum.constant (.bool b)).equal digest d = true :=
      (Bool.and_eq_true_iff.mp hfinds).1
    match d with
    | .constant (.bool c) => rw [eq_of_beq hequal]
    | .constant .none | .constant (.int _) | .constant (.float _) | .constant (.string _)
    | .tuple _ _ | .list _ _ | .dict _ _ | .entity _ | .method _ _ | .awaiting _ _ =>
      exact Bool.noConfusion hequal
  · rintro rfl
    exact Bool.and_eq_true_iff.mpr ⟨beq_self_eq_true b, beq_self_eq_true _⟩

theorem isTruth_iff : IsTruth set ↔ set.length = 2 ∧
    set.any ((Datum.hashing digest).finds (.constant (.bool true))) = true ∧
      set.any ((Datum.hashing digest).finds (.constant (.bool false))) = true := by
  have hany (b : Bool) : set.any ((Datum.hashing digest).finds (.constant (.bool b))) = true ↔
      .constant (.bool b) ∈ set := by
    simp only [List.any_eq_true, finds_bool_iff, exists_eq_right]
  rw [hany, hany]
  constructor
  · rintro (rfl | rfl) <;> simp
  · rintro ⟨hlength, htrue, hfalse⟩
    obtain ⟨first, second, rfl⟩ := List.length_eq_two.mp hlength
    simp only [List.mem_cons, List.not_mem_nil, or_false] at htrue hfalse
    rcases htrue with rfl | rfl
    · rcases hfalse with hfalse | rfl
      · cases hfalse
      · exact .inl rfl
    · rcases hfalse with rfl | hfalse
      · exact .inr rfl
      · cases hfalse

/-- The datum that an annotation has as its index. -/
def indexOf : List Datum → Datum
  | [single] => single
  | several => .tuple ⟨0⟩ several

def literalForm (index : Expr) : Expr :=
  .subscript (.member (.named "typing") "Literal" .synthetic) index .synthetic

/-- Values that are not the two truth values have an annotation if all of them have a literal. -/
theorem annotation_eq_ok (htruth : ¬IsTruth set) :
    annotation function set digest = .ok a ↔
      AreLiteral set ∧ a = ⟨literalForm (indexOf set).expression, true⟩ := by
  unfold annotation
  rw [if_neg (isTruth_iff.not.mp htruth)]
  apply (bind_pure_eq_ok (literals_eq_ok function set)).trans
  cases set with
  | nil => exact Iff.rfl
  | cons d ds => cases ds <;> exact Iff.rfl

theorem annotation_of_isTruth (htruth : IsTruth set) :
    annotation function set digest = .ok ⟨.named "bool", false⟩ := by
  unfold annotation
  rw [if_pos (isTruth_iff.mp htruth)]
  rfl

/-- A tuple that is the only value has the annotation that its items have. -/
theorem annotation_of_tuple (function : String) (r : Ref .tuple) {items : List Datum}
    (hlength : items.length ≠ 1) (htruth : ¬IsTruth items) :
    annotation function [.tuple r items] digest = annotation function items digest := by
  have hsingle : ¬IsTruth [.tuple r items] := by
    rintro (h | h)
    · exact nomatch h
    · exact nomatch h
  rw [isTruth_iff] at hsingle htruth
  unfold annotation
  rw [if_neg hsingle, if_neg htruth, literals, literal, literals]
  cases h : literals function items with
  | error failure => rfl
  | ok elements =>
    obtain ⟨-, rfl⟩ := (literals_eq_ok function items elements).mp h
    match items, hlength with
    | [], _ => rfl
    | _ :: _ :: _, _ => rfl

/-- What an annotation lists: the items of the only value if that is a tuple, and otherwise the
values. -/
def listed : List Datum → List Datum
  | [.tuple _ items] => items
  | set => set

end Rewriting

/-! ## Values of annotations -/

/-- In the scope the name of the module with the annotation forms stands for this module. -/
def Machine.KnowsForms (m : Machine) (scope : Scope) : Prop :=
  ∃ name globals, m.heap.lookup? scope "typing" = some (.module name globals) ∧
    m.heap.frame globals = Builtin.typingModule

section Values

open Datum (AreLiteral AreProper)
open Rewriting (indexOf listed literalForm)

variable {s : Services} {scope : Scope} {m : Machine} {set : List Datum}

theorem Heap.Settled.exists_tuple {h : Heap} {v : Value} {r : Ref .tuple} {ds : List Datum}
    (hv : h.Settled v (.tuple r ds)) : ∃ r', v = .tuple r' := by
  have hshows := hv h (.refl h) (h.containers + 1) (Nat.le_succ _)
  cases v with
  | tuple r' => exact ⟨r', rfl⟩
  | _ => exact nomatch hshows

theorem Heap.Settled.ne_tuple {h : Heap} {v : Value} {d : Datum} (hv : h.Settled v d)
    (hd : ∀ r items, d ≠ .tuple r items) (r : Ref .tuple) : v ≠ .tuple r := by
  rintro rfl
  have hshows := hv h (.refl h) (h.containers + 1) (Nat.le_succ _)
  cases d with
  | tuple r items => exact hd r items rfl
  | _ => exact nomatch hshows

/-- An annotation form keeps an index that is a tuple. -/
theorem builds_subscript_tuple {v : Value} {r : Ref .tuple} {items : List Datum}
    (hv : m.heap.Settled v (.tuple r items)) (f : TypeForm) :
    Builds m (Run.subscript (.builtin (.form f)) v)
      fun h w => h.Settled w (.tuple ⟨0⟩ items) := by
  obtain ⟨r', rfl⟩ := hv.exists_tuple
  exact ⟨.tuple r', m, rfl, .refl m, hv⟩

/-- An annotation form makes a tuple of any other index. -/
theorem builds_subscript_other {v : Value} {d : Datum} (hv : m.heap.Settled v d)
    (hd : ∀ r items, d ≠ .tuple r items) (f : TypeForm) :
    Builds m (Run.subscript (.builtin (.form f)) v)
      fun h w => h.Settled w (.tuple ⟨0⟩ [d]) := by
  have hsubscript : Run.subscript (.builtin (.form f)) v m = Run.newTuple #[v] m := by
    have hother := hv.ne_tuple hd
    cases v with
    | tuple r => exact absurd rfl (hother r)
    | _ => rfl
  obtain ⟨w, m', hrun, hadds, hw⟩ := builds_newTuple (m := m) (.cons hv .nil) ⟨0⟩
  exact ⟨w, m', hsubscript.trans hrun, hadds, hw⟩

/-- Under the index of an annotation the form gives what the annotation lists. -/
theorem builds_subscript_index {v : Value} (hv : m.heap.Settled v (indexOf set)) (f : TypeForm) :
    Builds m (Run.subscript (.builtin (.form f)) v)
      fun h w => h.Settled w (.tuple ⟨0⟩ (listed set)) := by
  match set with
  | [.tuple _ _] => exact builds_subscript_tuple hv f
  | [.constant _] | [.list _ _] | [.dict _ _] | [.entity _] | [.method _ _] | [.awaiting _ _] =>
    exact builds_subscript_other hv nofun f
  | [] => exact builds_subscript_tuple hv f
  | d :: d' :: ds =>
    have hlisted : listed (d :: d' :: ds) = d :: d' :: ds := by cases d <;> rfl
    rw [hlisted]
    exact builds_subscript_tuple hv f

theorem eval_form (hforms : m.KnowsForms scope) :
    eval s scope (.member (.named "typing") "Literal" .synthetic) m =
      .ok (.builtin (.form .literal)) m := by
  obtain ⟨name, globals, hlookup, hglobals⟩ := hforms
  have hname : eval s scope (.named "typing") m = .ok (.module name globals) m := by
    change nameValue scope "typing" m = _
    rw [nameValue, bind_of_ok (Run.getHeap_ok m), hlookup]
    rfl
  rw [eval, bind_of_ok hname, Run.member, bind_of_ok (Run.getHeap_ok m)]
  simp only [hglobals]
  rfl

/-- The value of the annotation of literal data is the tuple of what is listed, however its
constants are spelled. -/
theorem builds_literalForm {spell : Constant → Expr} (hspell : IsSpelling s scope spell)
    (hliteral : AreLiteral set) (hproper : AreProper set) (hforms : m.KnowsForms scope) :
    Builds m (eval s scope ((literalForm (indexOf set).expression).strip spell))
      fun h v => h.Settled v (.tuple ⟨0⟩ (listed set)) := by
  have hindex : (indexOf set).IsLiteral ∧ (indexOf set).Proper := by
    match set with
    | [_] => exact ⟨hliteral.1, hproper.1⟩
    | [] | _ :: _ :: _ => exact ⟨hliteral, hproper⟩
  have hform : Builds m (eval s scope (.member (.named "typing") "Literal" .synthetic))
      fun _ v => v = .builtin (.form .literal) := ⟨_, m, eval_form hforms, .refl m, rfl⟩
  apply hform.bind
  rintro _ m₁ hm₁ rfl
  apply (builds_strip hspell _ hindex.1 hindex.2 m₁).bind
  intro v m₂ _ hv
  exact builds_subscript_index hv .literal

end Values

open Datum (AreProper itemContents itemFloats)
open Rewriting

/-- The two truth values have their own annotation.  For all other values with an annotation that
has a literal of each the annotation is read back from its text, and as it is built and as it is
read it has a tuple of the listed values for its value.  These are the values themselves unless the
only one is a tuple. -/
theorem annotation_lists {function : String} {set : List Datum} {digest : Digest} {a : Annotation}
    (ha : annotation function set digest = .ok a) (hproper : AreProper set)
    (hreads : ∀ x ∈ itemFloats set, Decimal.ReadsBack x) :
    (IsTruth set ∧ a = ⟨.named "bool", false⟩) ∨
      (¬IsTruth set ∧ ∃ e, Syntax.readExpr a.expr.print = .ok e ∧
        ∀ (s : Services) (scope : Scope) (m : Machine), m.KnowsForms scope →
          ∀ e' ∈ [a.expr, e], ∃ r m', eval s scope e' m = .ok (.tuple r) m' ∧
            (m'.heap.view (.tuple r)).contents = .tuple ⟨0⟩ (itemContents (listed set))) := by
  by_cases htruth : IsTruth set
  · rw [annotation_of_isTruth htruth] at ha
    exact .inl ⟨htruth, (Except.ok.inj ha).symm⟩
  · obtain ⟨hliteral, rfl⟩ := (annotation_eq_ok htruth).mp ha
    have hindex : ∀ x ∈ (indexOf set).floats, Decimal.ReadsBack x := by
      match set with
      | [d] =>
        intro x hx
        exact hreads x (List.mem_append_left _ hx)
      | [] | _ :: _ :: _ => exact hreads
    have hlegible : (literalForm (indexOf set).expression).Legible := by
      have hnames : Syntax.isName "typing" = true ∧ Syntax.isName "Literal" = true := by decide
      exact ⟨hnames, (indexOf set).legible_expression hindex⟩
    obtain ⟨e, hread, hplain⟩ := Syntax.readExpr_print hlegible
    refine .inr ⟨htruth, e, hread, ?_⟩
    intro s scope m hforms e' he'
    have hbuilds : Builds m (eval s scope e') fun h v => h.Settled v (.tuple ⟨0⟩ (listed set)) := by
      rcases List.mem_cons.mp he' with rfl | he'
      · rw [← eval_bare]
        exact builds_literalForm (fun _ _ => rfl) hliteral hproper hforms
      · obtain rfl := List.mem_singleton.mp he'
        rw [← eval_bare, ← Expr.bare, hplain]
        exact builds_literalForm (fun c hc => eval_plain c hc s scope) hliteral hproper hforms
    obtain ⟨v, m', hrun, -, hv⟩ := hbuilds
    obtain ⟨r, rfl⟩ := hv.exists_tuple
    exact ⟨r, m', hrun, hv.shows⟩

end StagedScript
