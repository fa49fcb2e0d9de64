import StagedScript.Proofs.Decimal.Whole
import StagedScript.Proofs.Value.Nesting

/-!
# Equality and hashing

Equal composed values write the same to be hashed.  Hence a table, whatever the
hash function, finds a composed key exactly where an equal one is.
-/

namespace StagedScript

open Syntax (Constant)

/-- Equal constants are hashed alike, a whole number like its double. -/
theorem Syntax.Constant.hashWrites_of_constantsEqual {c d : Constant}
    (hc : ∀ n, c = .int n → n.toInt.natAbs ≤ 2 ^ 53)
    (hd : ∀ n, d = .int n → n.toInt.natAbs ≤ 2 ^ 53) (h : Datum.constantsEqual c d = true) :
    c.hashWrites = d.hashWrites := by
  have hdouble {n : Int64} {x : Float} (hn : n.toInt.natAbs ≤ 2 ^ 53)
      (hx : (Decimal.ofInt64 n == x) = true) :
      (Constant.int n).hashWrites = (Constant.float x).hashWrites := by
    rw [← Decimal.hashWrites_of_beq hx, Constant.hashWrites, Constant.hashWrites,
      Decimal.whole?_ofInt64 hn]
  cases c with
  | none =>
    cases d with
    | none => rfl
    | _ => cases h
  | bool a =>
    cases d with
    | bool b => rw [eq_of_beq h]
    | _ => cases h
  | int m =>
    cases d with
    | int n => rw [eq_of_beq h]
    | float x => exact hdouble (hc m rfl) h
    | _ => cases h
  | float x =>
    cases d with
    | int n => exact (hdouble (hd n rfl) h).symm
    | float y => exact Decimal.hashWrites_of_beq h
    | _ => cases h
  | string s =>
    cases d with
    | string t => rw [eq_of_beq h]
    | _ => cases h

/-- Items that are equal one by one write the same if equal ones do. -/
theorem flatMap_eq_of_sameItems {α β : Type} {equal : α → α → Bool} {f : α → List β}
    {as bs : Array α} (hsame : sameItems equal as bs = true)
    (hf : ∀ a ∈ as, ∀ b ∈ bs, equal a b = true → f a = f b) :
    as.toList.flatMap f = bs.toList.flatMap f := by
  obtain ⟨hsize, hitems⟩ := sameItems_iff.mp hsame
  have hmap : as.toList.map f = bs.toList.map f := by
    refine List.ext_getElem (by simpa using hsize) fun i hi hi' => ?_
    have ha := Array.getElem?_eq_getElem (show i < as.size by simpa using hi)
    have hb := Array.getElem?_eq_getElem (show i < bs.size by simpa using hi')
    simpa using hf _ (Array.mem_of_getElem? ha) _ (Array.mem_of_getElem? hb) (hitems i _ _ ha hb)
  rw [List.flatMap_def, List.flatMap_def, hmap]

/-- Keys with a property write the same if they are equal. -/
def Hashing.AgreesOn {κ : Type} (s : Hashing κ) (p : κ → Prop) : Prop :=
  ∀ key other, p key → p other → s.equal key other = true → s.writes key = s.writes other

theorem Hashing.AgreesOn.finds_eq {κ : Type} {s : Hashing κ} {p : κ → Prop} {key other : κ}
    (hs : s.AgreesOn p) (hkey : p key) (hother : p other) :
    s.finds key other = s.equal key other := by
  rw [finds, Bool.eq_iff_iff, Bool.and_eq_true, beq_iff_eq]
  exact and_iff_left_of_imp fun hequal => congrArg s.digest (hs key other hkey hother hequal)

namespace Heap

variable {h : Heap} {n : Nat} {a b : Value}

/-- Both values are constants, or both are tuples, lists or dictionaries. -/
inductive SameKind : Value → Value → Prop
  | constants (c d : Constant) : SameKind (.constant c) (.constant d)
  | tuples (r s : Ref .tuple) : SameKind (.tuple r) (.tuple s)
  | lists (r s : Ref .list) : SameKind (.list r) (.list s)
  | dicts (r s : Ref .dict) : SameKind (.dict r) (.dict s)

theorem sameKind_of_equalWithin (ha : h.Composed a) (hab : h.equalWithin n a b = true) :
    SameKind a b := by
  cases ha with
  | constant c =>
    cases b with
    | constant d => exact .constants c d
    | _ => cases n <;> exact Bool.noConfusion hab
  | tuple r =>
    cases b with
    | tuple s => exact .tuples r s
    | _ => cases n <;> exact Bool.noConfusion hab
  | list r =>
    cases b with
    | list s => exact .lists r s
    | _ => cases n <;> exact Bool.noConfusion hab
  | dict r =>
    cases b with
    | dict s => exact .dicts r s
    | _ => cases n <;> exact Bool.noConfusion hab

theorem hashWritesWithin_of_equalWithin (ha : h.Composed a) (hb : h.Composed b)
    (hab : h.equalWithin n a b = true) : h.hashWritesWithin n a = h.hashWritesWithin n b := by
  have hconstant {c d : Constant} (hc : h.Composed (.constant c)) (hd : h.Composed (.constant d))
      (hcd : Datum.constantsEqual c d = true) : c.hashWrites = d.hashWrites := by
    cases hc with
    | constant _ hc =>
      cases hd with
      | constant _ hd =>
        refine Constant.hashWrites_of_constantsEqual ?_ ?_ hcd
        · rintro n rfl
          exact hc
        · rintro n rfl
          exact hd
  induction n generalizing a b with
  | zero =>
    cases sameKind_of_equalWithin ha hab with
    | constants c d => exact hconstant ha hb hab
    | _ => rfl
  | succ n ih =>
    cases sameKind_of_equalWithin ha hab with
    | constants c d => exact hconstant ha hb hab
    | tuples r s =>
      rcases Bool.or_eq_true_iff.mp hab with hsame | hitems
      · rw [eq_of_beq hsame]
      cases ha with
      | tuple _ ha =>
        cases hb with
        | tuple _ hb =>
          exact congrArg (HashWrite.byte 5 :: ·) (flatMap_eq_of_sameItems hitems
            fun v hv w hw hvw => ih (ha v hv) (hb w hw) hvw)
    | lists r s => rfl
    | dicts r s => rfl

theorem agreesOn_hashingWithin (h : Heap) (n : Nat) : (h.hashingWithin n).AgreesOn h.Composed :=
  fun _ _ => hashWritesWithin_of_equalWithin

theorem agreesOn_hashing (h : Heap) : h.hashing.AgreesOn h.Composed :=
  h.agreesOn_hashingWithin _

end Heap

end StagedScript
