import Mathlib.Data.List.Forall2

/-!
# Computations that succeed

If a computation with errors succeeds, each of its steps does.
-/

namespace StagedScript

variable {ε α β : Type}

section Bind

variable {x : Except ε α} {p q : Prop} {a : α} {b c : β}

theorem bind_eq_ok {f : α → Except ε β} (hx : ∀ a', x = .ok a' ↔ p ∧ a' = a)
    (hf : f a = .ok b ↔ q ∧ b = c) : (x >>= f) = .ok b ↔ (p ∧ q) ∧ b = c := by
  cases x with
  | error fault =>
    exact ⟨nofun, fun h => nomatch (hx a).mpr ⟨h.1.1, rfl⟩⟩
  | ok a' =>
    obtain ⟨hp, rfl⟩ := (hx a').mp rfl
    exact hf.trans ⟨fun h => ⟨⟨hp, h.1⟩, h.2⟩, fun h => ⟨h.1.2, h.2⟩⟩

theorem bind_pure_eq_ok {f : α → β} (hx : ∀ a', x = .ok a' ↔ p ∧ a' = a) :
    (x >>= fun a => pure (f a)) = .ok b ↔ p ∧ b = f a := by
  have hf : (pure (f a) : Except ε β) = .ok b ↔ True ∧ b = f a :=
    ⟨fun h => ⟨trivial, (Except.ok.inj h).symm⟩, fun h => congrArg _ h.2.symm⟩
  exact (bind_eq_ok hx hf).trans (by rw [and_true])

theorem exists_of_bind_eq_ok {f : α → Except ε β} (h : (x >>= f) = .ok b) :
    ∃ a, x = .ok a ∧ f a = .ok b := by
  cases x with
  | ok a => exact ⟨a, rfl, h⟩
  | error e => exact nomatch h

end Bind

/-- A map that succeeds has succeeded on each item. -/
theorem forall₂_of_mapM {f : α → Except ε β} {as : List α} {bs : List β}
    (h : as.mapM f = .ok bs) : List.Forall₂ (fun a b => f a = .ok b) as bs := by
  induction as generalizing bs with
  | nil =>
    cases h
    exact .nil
  | cons a as ih =>
    rw [List.mapM_cons] at h
    obtain ⟨b, hb, h⟩ := exists_of_bind_eq_ok h
    obtain ⟨bs, hbs, h⟩ := exists_of_bind_eq_ok h
    cases h
    exact .cons hb (ih hbs)

theorem exists_of_forall₂ {R : α → β → Prop} {as : List α} {bs : List β}
    (h : List.Forall₂ R as bs) {a : α} (ha : a ∈ as) : ∃ b ∈ bs, R a b := by
  induction h with
  | nil => exact absurd ha List.not_mem_nil
  | cons hab _ ih =>
    rcases List.mem_cons.mp ha with rfl | ha
    · exact ⟨_, List.mem_cons_self, hab⟩
    · obtain ⟨b, hb, hR⟩ := ih ha
      exact ⟨b, List.mem_cons_of_mem _ hb, hR⟩

theorem of_mem_of_mapM {f : α → Except ε β} {as : List α} {bs : List β}
    (h : as.mapM f = .ok bs) {b : β} (hb : b ∈ bs) : ∃ a ∈ as, f a = .ok b :=
  exists_of_forall₂ (forall₂_of_mapM h).flip hb

end StagedScript
