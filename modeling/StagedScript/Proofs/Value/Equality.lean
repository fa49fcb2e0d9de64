import StagedScript.Proofs.Value.Settled

/-!
# Equality of values with the same contents

Two values of one heap that have the contents of the same literal datum are
equal.
-/

namespace StagedScript

namespace Heap

variable {h : Heap} {n : Nat}

def ShowsEntry (h : Heap) (n : Nat) (entry : Value × Value) (d : Datum × Datum) : Prop :=
  h.Shows n entry.1 d.1 ∧ h.Shows n entry.2 d.2

theorem forall₂_shows {items : List Value} {ds : List Datum}
    (hitems : Datum.itemContents (items.map (h.viewWithin n)) = Datum.itemContents ds) :
    List.Forall₂ (h.Shows n) items ds := by
  induction items generalizing ds with
  | nil =>
    cases ds with
    | nil => exact .nil
    | cons d ds => exact nomatch hitems
  | cons item items ih =>
    cases ds with
    | nil => exact nomatch hitems
    | cons d ds =>
      obtain ⟨hitem, hrest⟩ := List.cons.inj hitems
      exact .cons hitem (ih hrest)

theorem forall₂_showsEntry {entries : List (Value × Value)} {ds : List (Datum × Datum)}
    (hentries : Datum.entryContents (entries.map fun (key, value) =>
      (h.viewWithin n key, h.viewWithin n value)) = Datum.entryContents ds) :
    List.Forall₂ (h.ShowsEntry n) entries ds := by
  induction entries generalizing ds with
  | nil =>
    cases ds with
    | nil => exact .nil
    | cons d ds => exact nomatch hentries
  | cons entry entries ih =>
    cases ds with
    | nil => exact nomatch hentries
    | cons d ds =>
      obtain ⟨hentry, hrest⟩ := List.cons.inj hentries
      obtain ⟨hkey, hvalue⟩ := Prod.mk.inj hentry
      exact .cons ⟨hkey, hvalue⟩ (ih hrest)

/-- Values with the contents of a literal datum are equal down to the depth. -/
def EqualsLiterals (h : Heap) (n : Nat) : Prop :=
  ∀ a b d, d.IsLiteral → d.Proper → h.Shows n a d → h.Shows n b d → h.equalWithin n a b = true

theorem isEqv_of_shows (hequal : h.EqualsLiterals n) {as bs : List Value} {ds : List Datum}
    (hliteral : Datum.AreLiteral ds) (hproper : Datum.AreProper ds)
    (has : List.Forall₂ (h.Shows n) as ds) (hbs : List.Forall₂ (h.Shows n) bs ds) :
    as.isEqv bs (h.equalWithin n) = true := by
  induction has generalizing bs with
  | nil =>
    cases hbs
    rfl
  | cons ha _ ih =>
    cases hbs with
    | cons hb hbs =>
      rw [List.isEqv, hequal _ _ _ hliteral.1 hproper.1 ha hb, ih hliteral.2 hproper.2 hbs]
      rfl

theorem sameItems_of_shows (hequal : h.EqualsLiterals n) {as bs : Array Value} {ds : List Datum}
    (hliteral : Datum.AreLiteral ds) (hproper : Datum.AreProper ds)
    (has : List.Forall₂ (h.Shows n) as.toList ds) (hbs : List.Forall₂ (h.Shows n) bs.toList ds) :
    sameItems (h.equalWithin n) as bs = true := by
  rw [sameItems_eq]
  exact isEqv_of_shows hequal hliteral hproper has hbs

/-! ## Entries -/

/-- Values with the contents of the same literal datum are found where the other one is. -/
theorem EqualsLiterals.finds (hequal : h.EqualsLiterals n) {a b : Value} {d : Datum}
    (hliteral : d.IsLiteral) (hproper : d.Proper) (ha : h.Shows n a d) (hb : h.Shows n b d) :
    (h.hashingWithin n).finds a b = true := by
  have hwrites : h.hashWritesWithin n a = h.hashWritesWithin n b := by
    rw [hashWritesWithin_eq, hashWritesWithin_eq, ← Datum.hashWrites_contents, show _ = _ from ha,
      ← show _ = _ from hb, Datum.hashWrites_contents]
  exact Bool.and_eq_true_iff.mpr
    ⟨hequal a b d hliteral hproper ha hb, beq_iff_eq.mpr (congrArg h.digest hwrites)⟩

/-- A key is not found among entries with other keys. -/
theorem find?_of_new {key : Value} {k : Datum} (hkey : h.Shows n key k) (hk : k.IsKey)
    {entries : List (Value × Value)} {ds : List (Datum × Datum)}
    (hentries : List.Forall₂ (h.ShowsEntry n) entries ds)
    (hnew : ∀ d ∈ ds, k.agrees d.1 = false) :
    entries.find? (fun entry => (h.hashingWithin n).finds key entry.1) = none := by
  induction hentries with
  | nil => rfl
  | @cons entry d _ _ hentry _ ih =>
    have hnot : (h.hashingWithin n).finds key entry.1 = false := by
      apply Bool.eq_false_iff.mpr
      intro hfinds
      have hequal : h.equalWithin n key entry.1 = true := (Bool.and_eq_true_iff.mp hfinds).1
      have hnot := hnew d List.mem_cons_self
      rw [hkey.agrees_of_equalWithin hentry.1 (.inl hk) hequal] at hnot
      exact Bool.noConfusion hnot
    rw [List.find?_cons_of_neg (by simp [hnot])]
    exact ih fun d hd => hnew d (List.mem_cons_of_mem _ hd)

/-- Each entry is found among those with the same contents; `bs` and `ds` are the entries in front
of it. -/
theorem all_find?_of_shows (hequal : h.EqualsLiterals n) {as more : List (Value × Value)}
    {others : List (Datum × Datum)} (hliteral : Datum.AreLiteralEntries others)
    (hproper : Datum.AreProperEntries others)
    (has : List.Forall₂ (h.ShowsEntry n) as others)
    (hmore : List.Forall₂ (h.ShowsEntry n) more others) {bs : List (Value × Value)}
    {ds : List (Datum × Datum)} (hbs : List.Forall₂ (h.ShowsEntry n) bs ds)
    (hkeys : Datum.ProperKeys (ds ++ others)) :
    (as.all fun entry =>
      ((bs ++ more).find? fun other => (h.hashingWithin n).finds entry.1 other.1).any
        fun other => h.equalWithin n entry.2 other.2) = true := by
  induction has generalizing more bs ds with
  | nil => rfl
  | @cons a d as others ha _ ih =>
    cases hmore with
    | @cons b _ more _ hb hmore =>
      obtain ⟨⟨hkeyLiteral, hvalueLiteral⟩, hothersLiteral⟩ := hliteral
      obtain ⟨⟨hkeyProper, hvalueProper⟩, hothersProper⟩ := hproper
      have hhashable : d.1.isHashable = true := hkeys.1 d (by simp)
      have hnew : ∀ d' ∈ ds, d.1.agrees d'.1 = false := fun d' hd' =>
        (List.pairwise_append.mp hkeys.2).2.2 d' hd' d List.mem_cons_self
      have hsame := hequal.finds hkeyLiteral hkeyProper ha.1 hb.1
      have hfind : (bs ++ b :: more).find? (fun other => (h.hashingWithin n).finds a.1 other.1) =
          some b := by
        rw [List.find?_append, find?_of_new ha.1 (hkeyLiteral.isKey _ hhashable) hbs hnew,
          Option.none_or]
        exact List.find?_cons_of_pos hsame
      have hnext := ih hothersLiteral hothersProper hmore
        (List.rel_append hbs (.cons hb .nil)) (by simpa using hkeys)
      simp only [List.append_assoc, List.singleton_append] at hnext
      rw [List.all_cons, hnext, Bool.and_true, hfind]
      exact hequal _ _ _ hvalueLiteral hvalueProper ha.2 hb.2

theorem sameEntries_of_shows (hequal : h.EqualsLiterals n) {as bs : Array (Value × Value)}
    {ds : List (Datum × Datum)} (hliteral : Datum.AreLiteralEntries ds)
    (hproper : Datum.AreProperEntries ds) (hkeys : Datum.ProperKeys ds)
    (has : List.Forall₂ (h.ShowsEntry n) as.toList ds)
    (hbs : List.Forall₂ (h.ShowsEntry n) bs.toList ds) :
    (h.hashingWithin n).sameEntries as bs = true := by
  have hsize : as.size = bs.size := by simpa using has.length_eq.trans hbs.length_eq.symm
  have hall := all_find?_of_shows hequal hliteral hproper has hbs .nil hkeys
  refine Bool.and_eq_true_iff.mpr ⟨beq_iff_eq.mpr hsize, ?_⟩
  rw [← Array.all_toList]
  refine List.all_eq_true.mpr fun entry hentry => ?_
  have hfound := List.all_eq_true.mp hall entry hentry
  rw [List.nil_append, Array.find?_toList] at hfound
  exact hfound

/-! ## Values -/

theorem Shows.constant {v : Value} {c : Syntax.Constant} (hv : h.Shows n v (.constant c)) :
    v = .constant c := by
  cases n <;> cases v with
  | constant c' => exact congrArg Value.constant (Datum.constant.inj hv)
  | _ => exact nomatch hv

theorem Shows.tuple {v : Value} {r : Ref .tuple} {ds : List Datum}
    (hv : h.Shows n v (.tuple r ds)) : ∃ ref, v = .tuple ref ∧
      ∀ k, n = k + 1 → List.Forall₂ (h.Shows k) (h.tuple ref).toList ds := by
  cases v with
  | tuple ref =>
    refine ⟨ref, rfl, ?_⟩
    rintro k rfl
    exact forall₂_shows (Datum.tuple.inj hv).2
  | _ => cases n <;> exact nomatch hv

theorem Shows.list {v : Value} {r : Ref .list} {ds : List Datum}
    (hv : h.Shows n v (.list r ds)) : ∃ ref, v = .list ref ∧
      ∀ k, n = k + 1 → List.Forall₂ (h.Shows k) (h.list ref).toList ds := by
  cases v with
  | list ref =>
    refine ⟨ref, rfl, ?_⟩
    rintro k rfl
    exact forall₂_shows (Datum.list.inj hv).2
  | _ => cases n <;> exact nomatch hv

theorem Shows.dict {v : Value} {r : Ref .dict} {ds : List (Datum × Datum)}
    (hv : h.Shows n v (.dict r ds)) : ∃ ref, v = .dict ref ∧
      ∀ k, n = k + 1 → List.Forall₂ (h.ShowsEntry k) (h.dict ref).toList ds := by
  cases v with
  | dict ref =>
    refine ⟨ref, rfl, ?_⟩
    rintro k rfl
    exact forall₂_showsEntry (Datum.dict.inj hv).2
  | _ => cases n <;> exact nomatch hv

theorem equalWithin_constant {c : Syntax.Constant} (hc : (Datum.constant c).IsLiteral) (n : Nat) :
    h.equalWithin n (.constant c) (.constant c) = true := by
  have hself := Datum.constantsEqual_self (Datum.IsLiteral.isKey (.constant c) hc rfl)
  cases n <;> exact hself

theorem equalsLiterals (h : Heap) (n : Nat) : h.EqualsLiterals n := by
  induction n with
  | zero =>
    intro a b d hliteral _ ha hb
    cases d with
    | constant c =>
      rw [ha.constant, hb.constant]
      exact equalWithin_constant hliteral 0
    | tuple r ds =>
      obtain ⟨ref, rfl, -⟩ := ha.tuple
      obtain ⟨ref', rfl, -⟩ := hb.tuple
      rfl
    | list r ds =>
      obtain ⟨ref, rfl, -⟩ := ha.list
      obtain ⟨ref', rfl, -⟩ := hb.list
      rfl
    | dict r ds =>
      obtain ⟨ref, rfl, -⟩ := ha.dict
      obtain ⟨ref', rfl, -⟩ := hb.dict
      rfl
    | _ => exact hliteral.elim
  | succ n ih =>
    intro a b d hliteral hproper ha hb
    cases d with
    | constant c =>
      rw [ha.constant, hb.constant]
      exact equalWithin_constant hliteral _
    | tuple r ds =>
      obtain ⟨ref, rfl, hitems⟩ := ha.tuple
      obtain ⟨ref', rfl, hitems'⟩ := hb.tuple
      exact Bool.or_eq_true_iff.mpr (.inr (sameItems_of_shows ih hliteral hproper
        (hitems n rfl) (hitems' n rfl)))
    | list r ds =>
      obtain ⟨ref, rfl, hitems⟩ := ha.list
      obtain ⟨ref', rfl, hitems'⟩ := hb.list
      exact Bool.or_eq_true_iff.mpr (.inr (sameItems_of_shows ih hliteral hproper
        (hitems n rfl) (hitems' n rfl)))
    | dict r ds =>
      obtain ⟨ref, rfl, hentries⟩ := ha.dict
      obtain ⟨ref', rfl, hentries'⟩ := hb.dict
      exact Bool.or_eq_true_iff.mpr (.inr (sameEntries_of_shows ih hliteral hproper.2 hproper.1
        (hentries n rfl) (hentries' n rfl)))
    | _ => exact hliteral.elim

/-- Values with the contents of the same literal datum are equal. -/
theorem equal_of_contents {a b : Value} {d : Datum} (hliteral : d.IsLiteral) (hproper : d.Proper)
    (ha : (h.view a).contents = d.contents) (hb : (h.view b).contents = d.contents) :
    h.equal a b = true :=
  h.equalsLiterals _ a b d hliteral hproper ha hb

end Heap

end StagedScript
