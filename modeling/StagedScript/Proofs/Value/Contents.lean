import StagedScript.Proofs.Decimal.Double
import StagedScript.Value.Comparison

/-!
# Contents without identities

Two containers that were made apart have different identities even if they hold
the same items.  The contents of a datum leave identities out.  A value is
settled on a heap if no cell that is added later changes its contents.
-/

namespace StagedScript

open Syntax (Constant)

/-! ## Literal data -/

namespace Datum

mutual

/-- Whether the datum is built from constants, tuples, lists and dictionaries only, and no number in
it is infinite or undefined. -/
def IsLiteral : Datum → Prop
  | .constant (.float x) => Decimal.isFinite x = true
  | .constant _ => True
  | .tuple _ items | .list _ items => AreLiteral items
  | .dict _ entries => AreLiteralEntries entries
  | _ => False

def AreLiteral : List Datum → Prop
  | [] => True
  | item :: items => item.IsLiteral ∧ AreLiteral items

def AreLiteralEntries : List (Datum × Datum) → Prop
  | [] => True
  | (key, value) :: entries => (key.IsLiteral ∧ value.IsLiteral) ∧ AreLiteralEntries entries

end

mutual

/-- Whether the datum is built from constants, tuples and lists only, and no number in it is infinite
or undefined. -/
def IsSequential : Datum → Prop
  | .constant c => (Datum.constant c).IsLiteral
  | .tuple _ items | .list _ items => AreSequential items
  | _ => False

def AreSequential : List Datum → Prop
  | [] => True
  | item :: items => item.IsSequential ∧ AreSequential items

end

theorem areSequential_iff {ds : List Datum} : AreSequential ds ↔ ∀ d ∈ ds, d.IsSequential := by
  induction ds with
  | nil => simp [AreSequential]
  | cons d ds ih => simp [AreSequential, ih]

theorem areLiteral_iff {ds : List Datum} : AreLiteral ds ↔ ∀ d ∈ ds, d.IsLiteral := by
  induction ds with
  | nil => simp [AreLiteral]
  | cons d ds ih => simp [AreLiteral, ih]

mutual

theorem IsSequential.isLiteral {d : Datum} (h : d.IsSequential) : d.IsLiteral :=
  match d, h with
  | .constant _, h => h
  | .tuple _ _, h | .list _ _, h => AreSequential.areLiteral h

theorem AreSequential.areLiteral {ds : List Datum} (h : AreSequential ds) : AreLiteral ds :=
  match ds, h with
  | [], _ => trivial
  | _ :: _, h => ⟨h.1.isLiteral, h.2.areLiteral⟩

end

mutual

/-- The doubles in the datum. -/
def floats : Datum → List Float
  | .constant (.float x) => [x]
  | .tuple _ items | .list _ items => itemFloats items
  | .dict _ entries => entryFloats entries
  | _ => []

def itemFloats : List Datum → List Float
  | [] => []
  | item :: items => item.floats ++ itemFloats items

/-- The doubles in the keys and values. -/
def entryFloats : List (Datum × Datum) → List Float
  | [] => []
  | (key, value) :: entries => key.floats ++ value.floats ++ entryFloats entries

end

mutual

/-- Equality of keys by their contents. -/
def agrees : Datum → Datum → Bool
  | .constant a, .constant b => constantsEqual a b
  | .tuple _ items, .tuple _ others => agreeItems items others
  | _, _ => false

def agreeItems : List Datum → List Datum → Bool
  | [], [] => true
  | a :: as, b :: bs => a.agrees b && agreeItems as bs
  | _, _ => false

end

/-- Whether entries can be those of a dictionary: each key can be one and agrees with no key in front
of it. -/
def ProperKeys (entries : List (Datum × Datum)) : Prop :=
  (∀ entry ∈ entries, entry.1.isHashable = true) ∧
    entries.Pairwise fun earlier later => later.1.agrees earlier.1 = false

mutual

/-- Whether all dictionaries in the datum have proper keys. -/
def Proper : Datum → Prop
  | .tuple _ items | .list _ items => AreProper items
  | .dict _ entries => ProperKeys entries ∧ AreProperEntries entries
  | _ => True

def AreProper : List Datum → Prop
  | [] => True
  | item :: items => item.Proper ∧ AreProper items

def AreProperEntries : List (Datum × Datum) → Prop
  | [] => True
  | (key, value) :: entries => (key.Proper ∧ value.Proper) ∧ AreProperEntries entries

end

mutual

/-- The datum with one identity for all containers. -/
def contents : Datum → Datum
  | .tuple _ items => .tuple ⟨0⟩ (itemContents items)
  | .list _ items => .list ⟨0⟩ (itemContents items)
  | .dict _ entries => .dict ⟨0⟩ (entryContents entries)
  | d => d

def itemContents : List Datum → List Datum
  | [] => []
  | item :: items => item.contents :: itemContents items

def entryContents : List (Datum × Datum) → List (Datum × Datum)
  | [] => []
  | (key, value) :: entries => (key.contents, value.contents) :: entryContents entries

end

mutual

theorem isHashable_contents (d : Datum) : d.contents.isHashable = d.isHashable :=
  match d with
  | .tuple _ items => areHashable_itemContents items
  | .constant _ | .list _ _ | .dict _ _ | .entity _ | .method _ _ | .awaiting _ _ => rfl

theorem areHashable_itemContents (items : List Datum) :
    areHashable (itemContents items) = areHashable items :=
  match items with
  | [] => rfl
  | item :: items => by
    rw [itemContents, areHashable, areHashable, isHashable_contents item,
      areHashable_itemContents items]

end

mutual

/-- What a value writes to be hashed depends on its contents only. -/
theorem hashWrites_contents (d : Datum) : d.contents.hashWrites = d.hashWrites :=
  match d with
  | .tuple _ items => congrArg (HashWrite.byte 5 :: ·) (itemWrites_itemContents items)
  | .constant _ | .list _ _ | .dict _ _ | .entity _ | .method _ _ | .awaiting _ _ => rfl

theorem itemWrites_itemContents (items : List Datum) :
    itemWrites (itemContents items) = itemWrites items :=
  match items with
  | [] => rfl
  | item :: items => by
    rw [itemContents, itemWrites, itemWrites, hashWrites_contents item,
      itemWrites_itemContents items]

end

/-! ## Keys -/

mutual

/-- Whether the datum is a key of literal data. -/
def IsKey : Datum → Prop
  | .constant (.float x) => Decimal.isFinite x = true
  | .constant _ => True
  | .tuple _ items => AreKeys items
  | _ => False

def AreKeys : List Datum → Prop
  | [] => True
  | item :: items => item.IsKey ∧ AreKeys items

end

mutual

theorem IsLiteral.isKey (d : Datum) (h : d.IsLiteral) (hhash : d.isHashable = true) : d.IsKey :=
  match d, h with
  | .constant (.float _), h => h
  | .constant .none, _ | .constant (.bool _), _ | .constant (.int _), _
  | .constant (.string _), _ => trivial
  | .tuple _ items, h => AreLiteral.areKeys items h hhash
  | .list _ _, _ | .dict _ _, _ => absurd hhash Bool.false_ne_true

theorem AreLiteral.areKeys (items : List Datum) (h : AreLiteral items)
    (hhash : areHashable items = true) : AreKeys items :=
  match items, h with
  | [], _ => trivial
  | item :: items, h =>
    have hboth := Bool.and_eq_true_iff.mp hhash
    ⟨IsLiteral.isKey item h.1 hboth.1, AreLiteral.areKeys items h.2 hboth.2⟩

end

mutual

theorem isKey_contents (d : Datum) : d.contents.IsKey ↔ d.IsKey :=
  match d with
  | .tuple _ items => areKeys_itemContents items
  | .constant _ | .list _ _ | .dict _ _ | .entity _ | .method _ _ | .awaiting _ _ => Iff.rfl

theorem areKeys_itemContents (items : List Datum) : AreKeys (itemContents items) ↔ AreKeys items :=
  match items with
  | [] => Iff.rfl
  | item :: items => and_congr (isKey_contents item) (areKeys_itemContents items)

end

theorem constantsEqual_self {c : Constant} (h : (Datum.constant c).IsKey) :
    constantsEqual c c = true := by
  cases c with
  | none => rfl
  | bool b => exact beq_self_eq_true b
  | int n => exact beq_self_eq_true n
  | float x => exact Decimal.beq_self_of_finite h
  | string s => exact beq_self_eq_true s

mutual

theorem agrees_self (d : Datum) (h : d.IsKey) : d.agrees d = true :=
  match d, h with
  | .constant _, h => constantsEqual_self h
  | .tuple _ items, h => agreeItems_self items h

theorem agreeItems_self (items : List Datum) (h : AreKeys items) : agreeItems items items = true :=
  match items, h with
  | [], _ => rfl
  | item :: items, h => by
    rw [agreeItems, agrees_self item h.1, agreeItems_self items h.2]
    rfl

end

mutual

/-- Keys with equal contents are equal. -/
theorem equal_of_agrees (digest : Digest) (a b : Datum) (h : a.agrees b = true) :
    a.equal digest b = true :=
  match a, b, h with
  | .constant _, .constant _, h => h
  | .tuple _ items, .tuple _ others, h =>
    Bool.or_eq_true_iff.mpr (.inr (equalItems_of_agreeItems digest items others h))

theorem equalItems_of_agreeItems (digest : Digest) (as bs : List Datum)
    (h : agreeItems as bs = true) : equalItems digest as bs = true :=
  match as, bs, h with
  | [], [], _ => rfl
  | a :: as, b :: bs, h => by
    have hboth := Bool.and_eq_true_iff.mp h
    rw [equalItems, equal_of_agrees digest a b hboth.1,
      equalItems_of_agreeItems digest as bs hboth.2]
    rfl

end

mutual

/-- Whether keys agree depends on their contents only. -/
theorem agrees_contents (a b : Datum) : a.contents.agrees b.contents = a.agrees b :=
  match a, b with
  | .tuple _ items, .tuple _ others => agreeItems_itemContents items others
  | .constant _, b => by cases b <;> rfl
  | .tuple _ _, .constant _ | .tuple _ _, .list _ _ | .tuple _ _, .dict _ _
  | .tuple _ _, .entity _ | .tuple _ _, .method _ _ | .tuple _ _, .awaiting _ _ => rfl
  | .list _ _, _ | .dict _ _, _ | .entity _, _ | .method _ _, _ | .awaiting _ _, _ => rfl

theorem agreeItems_itemContents (as bs : List Datum) :
    agreeItems (itemContents as) (itemContents bs) = agreeItems as bs :=
  match as, bs with
  | [], [] | [], _ :: _ | _ :: _, [] => rfl
  | a :: as, b :: bs => by
    rw [itemContents, itemContents, agreeItems, agreeItems, agrees_contents a b,
      agreeItems_itemContents as bs]

end

end Datum

end StagedScript
