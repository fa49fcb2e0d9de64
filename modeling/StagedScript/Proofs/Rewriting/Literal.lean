import StagedScript.Proofs.Machine.Places
import StagedScript.Proofs.Outcome
import StagedScript.Proofs.Syntax.RoundTrip
import StagedScript.Proofs.Value.Arithmetic
import StagedScript.Proofs.Value.Equality
import StagedScript.Rewriting.Literal

/-!
# Literals read back

The literal of a datum is a legible expression.  It is read back in its plain
form, and the value of that has the contents of the datum.
-/

namespace StagedScript

open Syntax (Constant Expr Entry stripItems stripEntries ItemsHold EntriesHold)
open Evaluation

namespace Datum

mutual

/-- The expression that a literal datum is written as. -/
def expression : Datum → Expr
  | .constant c => .literal c
  | .tuple _ items => .tupleOf (itemExpressions items)
  | .list _ items => .list (itemExpressions items) .synthetic
  | .dict _ entries => .dict (entryExpressions entries) .synthetic
  | _ => .literal .none

def itemExpressions : List Datum → List Expr
  | [] => []
  | item :: items => item.expression :: itemExpressions items

def entryExpressions : List (Datum × Datum) → List Entry
  | [] => []
  | (key, value) :: entries => .pair key.expression value.expression :: entryExpressions entries

end

end Datum

namespace Rewriting

open Datum

mutual

theorem literal_eq_ok (function : String) (d : Datum) (e : Expr) :
    literal function d = .ok e ↔ d.IsLiteral ∧ e = d.expression := by
  match d with
  | .constant (.float x) =>
    rw [literal, IsLiteral, expression]
    split
    · next h => exact ⟨fun he => ⟨h, (Except.ok.inj he).symm⟩, fun he => congrArg _ he.2.symm⟩
    · next h => exact ⟨nofun, fun he => absurd he.1 h⟩
  | .constant .none | .constant (.bool _) | .constant (.int _) | .constant (.string _) =>
    exact ⟨fun he => ⟨trivial, (Except.ok.inj he).symm⟩, fun he => congrArg _ he.2.symm⟩
  | .tuple _ items => exact bind_pure_eq_ok (literals_eq_ok function items)
  | .list _ items => exact bind_pure_eq_ok (literals_eq_ok function items)
  | .dict _ entries => exact bind_pure_eq_ok (entryLiterals_eq_ok function entries)
  | .entity _ | .method _ _ | .awaiting _ _ => exact ⟨nofun, fun he => he.1.elim⟩

theorem literals_eq_ok (function : String) (items : List Datum) (es : List Expr) :
    literals function items = .ok es ↔ AreLiteral items ∧ es = itemExpressions items := by
  match items with
  | [] => exact ⟨fun he => ⟨trivial, (Except.ok.inj he).symm⟩, fun he => congrArg _ he.2.symm⟩
  | item :: items =>
    exact bind_eq_ok (literal_eq_ok function item)
      (bind_pure_eq_ok (literals_eq_ok function items))

theorem entryLiterals_eq_ok (function : String) (entries : List (Datum × Datum))
    (es : List Entry) :
    entryLiterals function entries = .ok es ↔
      AreLiteralEntries entries ∧ es = entryExpressions entries := by
  match entries with
  | [] => exact ⟨fun he => ⟨trivial, (Except.ok.inj he).symm⟩, fun he => congrArg _ he.2.symm⟩
  | (key, value) :: entries =>
    have hentry : entryLiterals function ((key, value) :: entries) = .ok es ↔
        (key.IsLiteral ∧ value.IsLiteral ∧ AreLiteralEntries entries) ∧ es = _ :=
      bind_eq_ok (literal_eq_ok function key) (bind_eq_ok (literal_eq_ok function value)
        (bind_pure_eq_ok (entryLiterals_eq_ok function entries)))
    exact hentry.trans (and_congr_left' and_assoc.symm)

end

end Rewriting

namespace Datum

section Legibility

variable {formatted : List Syntax.FormattedPart → Prop}

mutual

/-- The expression of a datum is legible, and there are no formatted strings in it. -/
theorem legible_expression (d : Datum) (h : ∀ x ∈ d.floats, Decimal.ReadsBack x) :
    d.expression.Holds Constant.Legible formatted :=
  match d, h with
  | .constant (.float x), h => h x List.mem_cons_self
  | .constant .none, _ | .constant (.bool _), _ | .constant (.int _), _
  | .constant (.string _), _ => trivial
  | .tuple _ items, h => legible_itemExpressions items h
  | .list _ items, h => legible_itemExpressions items h
  | .dict _ entries, h => legible_entryExpressions entries h
  | .entity _, _ | .method _ _, _ | .awaiting _ _, _ => trivial

theorem legible_itemExpressions (items : List Datum)
    (h : ∀ x ∈ itemFloats items, Decimal.ReadsBack x) :
    ItemsHold Constant.Legible formatted (itemExpressions items) :=
  match items, h with
  | [], _ => trivial
  | item :: items, h =>
    ⟨legible_expression item fun x hx => h x (List.mem_append_left _ hx),
      legible_itemExpressions items fun x hx => h x (List.mem_append_right _ hx)⟩

theorem legible_entryExpressions (entries : List (Datum × Datum))
    (h : ∀ x ∈ entryFloats entries, Decimal.ReadsBack x) :
    EntriesHold Constant.Legible formatted (entryExpressions entries) :=
  match entries, h with
  | [], _ => trivial
  | (key, value) :: entries, h =>
    ⟨⟨legible_expression key fun x hx =>
          h x (List.mem_append_left _ (List.mem_append_left _ hx)),
        legible_expression value fun x hx =>
          h x (List.mem_append_left _ (List.mem_append_right _ hx))⟩,
      legible_entryExpressions entries fun x hx => h x (List.mem_append_right _ hx)⟩

end

end Legibility

end Datum

/-! ## Evaluation -/

/-- The second machine has more containers, and is the first one apart from them. -/
structure Machine.Adds (m m' : Machine) : Prop where
  heap : m.heap.Extends m'.heap
  frames : m'.heap.frames = m.heap.frames
  functions : m'.heap.functions = m.heap.functions
  rest : m' = { m with heap := m'.heap }

namespace Machine.Adds

variable {m m' m'' : Machine}

theorem refl (m : Machine) : m.Adds m :=
  ⟨.refl _, rfl, rfl, rfl⟩

theorem trans (hm : m.Adds m') (hm' : m'.Adds m'') : m.Adds m'' where
  heap := hm.heap.trans hm'.heap
  frames := hm'.frames.trans hm.frames
  functions := hm'.functions.trans hm.functions
  rest := by
    rw [hm'.rest, hm.rest]

theorem addTuple (m : Machine) (items : Array Value) :
    m.Adds { m with heap := (m.heap.addTuple items).2 } :=
  ⟨.addTuple _ _, rfl, rfl, rfl⟩

theorem addList (m : Machine) (items : Array Value) :
    m.Adds { m with heap := (m.heap.addList items).2 } :=
  ⟨.addList _ _, rfl, rfl, rfl⟩

theorem addDict (m : Machine) (entries : Array (Value × Value)) :
    m.Adds { m with heap := (m.heap.addDict entries).2 } :=
  ⟨.addDict _ _, rfl, rfl, rfl⟩

/-- Names have the values that they had. -/
theorem lookup? (hm : m.Adds m') (scope : Scope) (name : String) :
    m'.heap.lookup? scope name = m.heap.lookup? scope name := by
  simp only [Heap.lookup?, Heap.frame, hm.frames]

end Machine.Adds

/-- The action adds containers only, and has a result of which `Q` holds on the heap with them. -/
def Builds {α : Type} (m : Machine) (x : Run α) (Q : Heap → α → Prop) : Prop :=
  ∃ a m', x m = .ok a m' ∧ m.Adds m' ∧ Q m'.heap a

namespace Builds

open Run (bind_of_ok)

variable {α β : Type} {m : Machine} {x : Run α} {Q : Heap → α → Prop}

theorem pure {a : α} (ha : Q m.heap a) : Builds m (Pure.pure a) Q :=
  ⟨a, m, rfl, .refl _, ha⟩

theorem bind {R : Heap → β → Prop} {f : α → Run β} (hx : Builds m x Q)
    (hf : ∀ a m', m.heap.Extends m'.heap → Q m'.heap a → Builds m' (f a) R) :
    Builds m (x >>= f) R := by
  obtain ⟨a, m', hrun, hadds, ha⟩ := hx
  obtain ⟨b, m'', hrun', hadds', hb⟩ := hf a m' hadds.heap ha
  exact ⟨b, m'', (bind_of_ok hrun).trans hrun', hadds.trans hadds', hb⟩

end Builds

open Run

variable {m : Machine}

theorem builds_newTuple {items : List Value} {ds : List Datum}
    (hitems : List.Forall₂ m.heap.Settled items ds) (r : Ref .tuple) :
    Builds m (newTuple items.toArray) fun h v => h.Settled v (.tuple r ds) :=
  ⟨_, _, rfl, .addTuple m _, .tuple hitems r⟩

theorem builds_newList {items : List Value} {ds : List Datum}
    (hitems : List.Forall₂ m.heap.Settled items ds) (r : Ref .list) :
    Builds m (newList items.toArray) fun h v => h.Settled v (.list r ds) :=
  ⟨_, _, rfl, .addList m _, .list hitems r⟩

theorem builds_newDict {entries : Array (Value × Value)} {ds : List (Datum × Datum)}
    (hentries : List.Forall₂ m.heap.SettledEntry entries.toList ds) (r : Ref .dict) :
    Builds m (newDict entries) fun h v => h.Settled v (.dict r ds) :=
  ⟨_, _, rfl, .addDict m _, .dict hentries r⟩

theorem builds_getHeap : Builds m getHeap fun h a => a = h :=
  ⟨_, _, rfl, .refl _, rfl⟩

theorem builds_checkHashable {v : Value} (h : m.heap.isHashable v = true) :
    Builds m (checkHashable v) fun _ _ => True := by
  refine ⟨(), m, ?_, .refl _, trivial⟩
  show (if m.heap.isHashable v then pure () else fault (.unhashable v.typeName) : Run Unit) m = _
  rw [if_pos h]
  rfl

theorem eval_neg {c c' : Constant} (hc : signed? .neg c = some (.ok c')) (s : Services)
    (scope : Scope) :
    eval s scope (.unary .neg (.literal c) .synthetic) = pure (Value.constant c') := by
  have hunary : unary .neg (.constant c) = pure (Value.constant c') := by
    unfold unary
    dsimp only
    rw [hc]
    rfl
  exact hunary

/-- The text of a constant is read as an expression with its value. -/
theorem eval_plain (c : Constant) (h : (Datum.constant c).IsLiteral) (s : Services)
    (scope : Scope) : eval s scope c.plain = pure (Value.constant c) :=
  match c, h with
  | .none, _ | .bool _, _ | .string _, _ => rfl
  | .int n, _ => by
    rw [Constant.plain]
    split
    · next hn =>
      apply eval_neg
      have hvalue := Syntax.Int64.toInt_neg_of_ne hn.2
      have hneg : Integer.neg (-n) = .ok n := by
        rw [Integer.neg, hvalue, Int.neg_neg, Integer.checked_toInt]
      rw [signed?, hneg]
      rfl
    · rfl
  | .float x, h => by
    obtain ⟨b, hx⟩ := Decimal.decode_of_isFinite h
    simp only [Constant.plain, hx]
    split
    · apply eval_neg
      rw [signed?, Decimal.neg_neg_of_finite hx]
    · rfl

/-- A key that is new comes last. -/
theorem insertEntry_of_new {h : Heap} {key value : Value} {k : Datum}
    {found : Array (Value × Value)} {done : List (Datum × Datum)}
    (hfound : List.Forall₂ h.SettledEntry found.toList done) (hkey : h.Settled key k)
    (hk : k.IsKey) (hnew : ∀ entry ∈ done, k.agrees entry.1 = false) :
    h.insertEntry key value found = found.push (key, value) := by
  have hnone : h.keyIndex? key found = none := by
    refine Array.findIdx?_eq_none_iff.mpr fun entry hentry => ?_
    obtain ⟨d, hd, hsettled⟩ := exists_of_forall₂ hfound (Array.mem_toList_iff.mpr hentry)
    apply Bool.eq_false_iff.mpr
    intro hfinds
    have hequal : h.equal key entry.1 = true := (Bool.and_eq_true_iff.mp hfinds).1
    have hnot := hnew d hd
    rw [hkey.shows.agrees_of_equalWithin hsettled.1.shows (.inl hk) hequal] at hnot
    exact Bool.noConfusion hnot
  rw [Heap.insertEntry, hnone]

/-- Each literal constant is spelled by an expression with that value. -/
def IsSpelling (s : Services) (scope : Scope) (spell : Constant → Expr) : Prop :=
  ∀ c, (Datum.constant c).IsLiteral → eval s scope (spell c) = pure (Value.constant c)

section Spelled

variable {s : Services} {scope : Scope} {spell : Constant → Expr}

mutual

/-- The expression of a literal datum has a value with its contents, however its constants are
spelled. -/
theorem builds_strip (hspell : IsSpelling s scope spell) (d : Datum) (h : d.IsLiteral)
    (hproper : d.Proper) (m : Machine) :
    Builds m (eval s scope (d.expression.strip spell)) fun h v => h.Settled v d :=
  match d, h with
  | .constant c, h => by
    rw [show eval s scope ((Datum.constant c).expression.strip spell) = _ from hspell c h]
    exact .pure (.constant _ _)
  | .tuple r items, h =>
    (builds_stripItems hspell items h hproper m).bind fun _ _ _ hitems => builds_newTuple hitems r
  | .list r items, h =>
    (builds_stripItems hspell items h hproper m).bind fun _ _ _ hitems => builds_newList hitems r
  | .dict r entries, h =>
    (builds_stripEntries hspell entries h hproper.2 [] hproper.1 m #[] .nil).bind
      fun _ _ _ hentries => builds_newDict hentries r

/-- The values of expressions of literal data. -/
theorem builds_stripItems (hspell : IsSpelling s scope spell) (items : List Datum)
    (h : Datum.AreLiteral items) (hproper : Datum.AreProper items) (m : Machine) :
    Builds m (evalAll s scope (stripItems spell (Datum.itemExpressions items)))
      fun h vs => List.Forall₂ h.Settled vs items :=
  match items, h with
  | [], _ => .pure .nil
  | item :: items, h =>
    (builds_strip hspell item h.1 hproper.1 m).bind fun _ _ _ hitem =>
      (builds_stripItems hspell items h.2 hproper.2 _).bind fun _ _ hextends hitems =>
        .pure (.cons (hitem.mono hextends) hitems)

/-- The entries of a dictionary after others. -/
theorem builds_stripEntries (hspell : IsSpelling s scope spell) (entries : List (Datum × Datum))
    (h : Datum.AreLiteralEntries entries) (hproper : Datum.AreProperEntries entries)
    (done : List (Datum × Datum)) (hkeys : Datum.ProperKeys (done ++ entries)) (m : Machine)
    (found : Array (Value × Value))
    (hfound : List.Forall₂ m.heap.SettledEntry found.toList done) :
    Builds m (evalEntries s scope found (stripEntries spell (Datum.entryExpressions entries)))
      fun h found => List.Forall₂ h.SettledEntry found.toList (done ++ entries) :=
  match entries, h with
  | [], _ => .pure (by rwa [List.append_nil])
  | (key, value) :: entries, h => by
    have hentry : (key, value) ∈ done ++ (key, value) :: entries := by simp
    have hhashable : key.isHashable = true := hkeys.1 _ hentry
    have hnew : ∀ entry ∈ done, key.agrees entry.1 = false := fun entry hmem =>
      (List.pairwise_append.mp hkeys.2).2.2 entry hmem (key, value) List.mem_cons_self
    refine (builds_strip hspell key h.1.1 hproper.1.1 m).bind fun k m₁ hm₁ hk => ?_
    refine (builds_checkHashable (hk.isHashable.trans hhashable)).bind fun _ m₂ hm₂ _ => ?_
    refine (builds_strip hspell value h.1.2 hproper.1.2 m₂).bind fun v m₃ hm₃ hv => ?_
    refine builds_getHeap.bind fun heap m₄ hm₄ hheap => ?_
    subst hheap
    have hm := ((hm₁.trans hm₂).trans hm₃).trans hm₄
    have hk' := hk.mono ((hm₂.trans hm₃).trans hm₄)
    have hfound' := hfound.imp fun _ _ he => Heap.SettledEntry.mono he hm
    -- The keys in front are settled, so the new key is compared with their contents.
    rw [insertEntry_of_new hfound' hk' (Datum.IsLiteral.isKey key h.1.1 hhashable) hnew]
    have hnext := builds_stripEntries hspell entries h.2 hproper.2 (done ++ [(key, value)])
      (by simpa using hkeys) m₄ (found.push (k, v)) (by
        rw [Array.toList_push]
        exact List.rel_append hfound' (.cons ⟨hk', hv.mono hm₄⟩ .nil))
    simpa using hnext

end

end Spelled

/-- The expression of a literal datum, read back, has a value with its contents. -/
theorem builds_expression (s : Services) (scope : Scope) (d : Datum) (h : d.IsLiteral)
    (hproper : d.Proper) (m : Machine) :
    Builds m (eval s scope d.expression.plain) fun h v => h.Settled v d :=
  builds_strip (fun c hc => eval_plain c hc s scope) d h hproper m

/-- The literal of a datum has a value with its contents. -/
theorem builds_literal (s : Services) (scope : Scope) (d : Datum) (h : d.IsLiteral)
    (hproper : d.Proper) (m : Machine) :
    Builds m (eval s scope d.expression) fun h v => h.Settled v d := by
  rw [← eval_bare]
  exact builds_strip (fun _ _ => rfl) d h hproper m

open Rewriting in
/-- A datum has a literal exactly if it is built from constants, tuples, lists and dictionaries
without numbers that are infinite or undefined.  If its doubles are read back from their text, the
text of the literal is read as an expression.  The value of that expression, in any scope and state,
has the contents of the datum, entry by entry in the same order, and is equal to every value with
these contents. -/
theorem literal_reads_back (function : String) (d : Datum) :
    ((∃ e, literal function d = .ok e) ↔ d.IsLiteral) ∧
      (d.Proper → (∀ x ∈ d.floats, Decimal.ReadsBack x) → ∀ e, literal function d = .ok e →
        ∃ e', Syntax.readExpr e.print = .ok e' ∧
          ∀ (s : Services) (scope : Scope) (m : Machine), ∃ v m',
            eval s scope e' m = .ok v m' ∧ (m'.heap.view v).contents = d.contents ∧
              ∀ w, (m'.heap.view w).contents = d.contents → m'.heap.equal v w = true) := by
  constructor
  · constructor
    · rintro ⟨e, he⟩
      exact ((literal_eq_ok function d e).mp he).1
    · exact fun h => ⟨_, (literal_eq_ok function d _).mpr ⟨h, rfl⟩⟩
  · intro hproper hreads e he
    obtain ⟨hliteral, rfl⟩ := (literal_eq_ok function d e).mp he
    obtain ⟨e', hread, hplain⟩ := Syntax.readExpr_print (d.legible_expression hreads)
    refine ⟨e', hread, fun s scope m => ?_⟩
    have hbuilds := builds_expression s scope d hliteral hproper m
    -- What was read differs from the plain form in its places only.
    rw [← hplain, Expr.bare, eval_bare] at hbuilds
    obtain ⟨v, m', hrun, -, hsettled⟩ := hbuilds
    exact ⟨v, m', hrun, hsettled.shows, fun w hw =>
      Heap.equal_of_contents hliteral hproper hsettled.shows hw⟩

open Rewriting in
/-- A dictionary whose key is negative and whose value is a tuple of one negative double. -/
theorem literal_reads_back_entry : ∃ e e',
    literal "f" (.dict ⟨0⟩ [(.constant (.int (-1)), .tuple ⟨1⟩ [.constant (.float (-0.5))])]) =
        .ok e ∧
      Syntax.readExpr e.print = .ok e' ∧ ∀ (s : Services) (scope : Scope) (m : Machine), ∃ v m',
        eval s scope e' m = .ok v m' ∧ (m'.heap.view v).contents =
          .dict ⟨0⟩ [(.constant (.int (-1)), .tuple ⟨0⟩ [.constant (.float (-0.5))])] ∧
        ∀ w, (m'.heap.view w).contents =
            .dict ⟨0⟩ [(.constant (.int (-1)), .tuple ⟨0⟩ [.constant (.float (-0.5))])] →
          m'.heap.equal v w = true := by
  have hdecode : Decimal.decode (-0.5) = .finite ⟨true, 2 ^ 52, -53⟩ := by decide +kernel
  have hreads : Decimal.ReadsBack (-0.5) := by
    intro b hb
    rw [hdecode] at hb
    obtain rfl := Decimal.Parts.finite.inj hb
    decide +kernel
  have hfinite : Decimal.isFinite (-0.5) = true := by rw [Decimal.isFinite, hdecode]
  obtain ⟨hliteral, hback⟩ := literal_reads_back "f"
    (.dict ⟨0⟩ [(.constant (.int (-1)), .tuple ⟨1⟩ [.constant (.float (-0.5))])])
  obtain ⟨e, he⟩ := hliteral.mpr ⟨⟨trivial, hfinite, trivial⟩, trivial⟩
  have hkeys : Datum.ProperKeys
      [(.constant (.int (-1)), .tuple ⟨1⟩ [.constant (.float (-0.5))])] :=
    ⟨fun _ h => List.mem_singleton.mp h ▸ rfl, List.pairwise_singleton _ _⟩
  obtain ⟨e', hread, heval⟩ := hback ⟨hkeys, ⟨trivial, trivial, trivial⟩, trivial⟩
    (fun x hx => List.mem_singleton.mp hx ▸ hreads) e he
  exact ⟨e, e', he, hread, heval⟩

end StagedScript
