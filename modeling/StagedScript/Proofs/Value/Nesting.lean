import Mathlib.Algebra.Ring.Nat
import Mathlib.Data.Finset.Card
import Mathlib.Data.Finset.Image
import Mathlib.Data.Finset.Range
import Mathlib.Logic.Relation
import StagedScript.Value.Comparison

/-!
# How deep values are nested

Values composed of constants, tuples, lists and dictionaries hold no container
that holds itself.  On a way from such a value to its contents every container
occurs once, so it is nested no deeper than there are containers on the heap, and
comparing it down to this depth compares all of it.
-/

namespace StagedScript

open Relation
open Syntax (Constant)

/-- The constant is told from all others by equality: a whole number has a magnitude up to `2 ^ 53`,
and a double is not the undefined one. -/
def Syntax.Constant.IsTold : Constant → Prop
  | .int n => n.toInt.natAbs ≤ 2 ^ 53
  | .float x => x.isNaN = false
  | _ => True

namespace Heap

variable {h : Heap}

/-- The value is a container with the other one as an item, a key or a value in it. -/
def Holds (h : Heap) : Value → Value → Prop
  | .tuple r, w => w ∈ h.tuple r
  | .list r, w => w ∈ h.list r
  | .dict r, w => ∃ e ∈ h.dict r, w = e.1 ∨ w = e.2
  | _, _ => False

def cells (h : Heap) : Finset Value :=
  (Finset.range h.tuples.size).image (fun i => .tuple ⟨i⟩) ∪
    (Finset.range h.lists.size).image (fun i => .list ⟨i⟩) ∪
    (Finset.range h.dicts.size).image (fun i => .dict ⟨i⟩)

theorem mem_cells {v w : Value} (hw : h.Holds v w) : v ∈ h.cells := by
  have hbound {α : Type} {a : α} {as : Array (Array α)} {i : Nat} (ha : a ∈ (as[i]?).getD #[]) :
      i < as.size := by
    by_contra hout
    rw [Array.getElem?_eq_none (Nat.le_of_not_lt hout)] at ha
    simp at ha
  have himage {n i : Nat} {f : Nat → Value} (hi : i < n) : f i ∈ (Finset.range n).image f :=
    Finset.mem_image_of_mem f (Finset.mem_range.mpr hi)
  cases v with
  | tuple r => exact Finset.mem_union_left _ (Finset.mem_union_left _ (himage (hbound hw)))
  | list r => exact Finset.mem_union_left _ (Finset.mem_union_right _ (himage (hbound hw)))
  | dict r =>
    obtain ⟨e, he, -⟩ := hw
    exact Finset.mem_union_right _ (himage (hbound he))
  | _ => exact hw.elim

theorem card_cells_le (h : Heap) : h.cells.card ≤ h.containers := by
  have hcard {n : Nat} {f : Nat → Value} : ((Finset.range n).image f).card ≤ n :=
    Finset.card_image_le.trans_eq (Finset.card_range n)
  calc h.cells.card ≤ _ := Finset.card_union_le _ _
    _ ≤ _ := Nat.add_le_add_right (Finset.card_union_le _ _) _
    _ ≤ h.containers := Nat.add_le_add (Nat.add_le_add hcard hcard) hcard

/-- No key equals a key in front of it. -/
def DistinctKeys (h : Heap) (entries : Array (Value × Value)) : Prop :=
  entries.toList.Pairwise fun e e' => h.equal e'.1 e.1 = false

/-- The value is composed of constants, tuples, lists and dictionaries.  Its whole numbers are told
from each other by their doubles, no double is the undefined one, and the keys of a dictionary
differ. -/
inductive Composed (h : Heap) : Value → Prop
  | constant (c : Constant) (hc : c.IsTold) : Composed h (.constant c)
  | tuple (r : Ref .tuple) (items : ∀ v ∈ h.tuple r, Composed h v) : Composed h (.tuple r)
  | list (r : Ref .list) (items : ∀ v ∈ h.list r, Composed h v) : Composed h (.list r)
  | dict (r : Ref .dict) (keys : ∀ e ∈ h.dict r, Composed h e.1)
      (values : ∀ e ∈ h.dict r, Composed h e.2) (distinct : h.DistinctKeys (h.dict r)) :
      Composed h (.dict r)

/-- Going down in a composed value comes to an end. -/
theorem Composed.acc {v : Value} (hv : h.Composed v) : Acc (fun w v => h.Holds v w) v := by
  induction hv with
  | tuple r items ih => exact .intro _ fun w hw => ih w hw
  | list r items ih => exact .intro _ fun w hw => ih w hw
  | dict r keys values distinct ihkeys ihvalues =>
    refine .intro _ fun w hw => ?_
    obtain ⟨e, he, rfl | rfl⟩ := hw
    · exact ihkeys e he
    · exact ihvalues e he
  | _ => exact .intro _ fun w hw => hw.elim

theorem not_transGen_of_acc {v : Value} (hv : Acc (fun w v => h.Holds v w) v) :
    ¬TransGen h.Holds v v := by
  induction hv with
  | intro v _ ih =>
    intro hcycle
    obtain ⟨w, hw, hback⟩ := TransGen.head'_iff.mp hcycle
    exact ih w hw (TransGen.tail' hback hw)

/-- Below the value no more than so many containers hold something one inside of the other. -/
def NestedWithin (h : Heap) : Nat → Value → Prop
  | 0, v => ∀ w, ¬h.Holds v w
  | n + 1, v => ∀ w, h.Holds v w → h.NestedWithin n w

theorem NestedWithin.mono {n k : Nat} {v : Value} (hv : h.NestedWithin n v) (hle : n ≤ k) :
    h.NestedWithin k v := by
  induction k generalizing n v with
  | zero => exact Nat.le_zero.mp hle ▸ hv
  | succ k ih =>
    cases n with
    | zero => exact fun w hw => absurd hw (hv w)
    | succ n => exact fun w hw => ih (hv w hw) (Nat.le_of_succ_le_succ hle)

/-- A way down passes each container of a finite set at most once. -/
theorem nestedWithin_card {v : Value} (hv : Acc (fun w v => h.Holds v w) v) (cells : Finset Value)
    (hcells : ∀ w u, ReflTransGen h.Holds v w → h.Holds w u → w ∈ cells) :
    h.NestedWithin cells.card v := by
  induction hv generalizing cells with
  | intro v hacc ih =>
    by_cases hholds : ∃ u, h.Holds v u
    · obtain ⟨u, hu⟩ := hholds
      rw [← Finset.card_erase_add_one (hcells v u .refl hu)]
      intro w hw
      refine ih w hw (cells.erase v) fun w' u' hw' hu' => ?_
      refine Finset.mem_erase.mpr ⟨?_, hcells w' u' (.head hw hw') hu'⟩
      rintro rfl
      exact not_transGen_of_acc (.intro _ hacc) (.head' hw hw')
    · have hnone : ∀ w, ¬h.Holds v w := fun w hw => hholds ⟨w, hw⟩
      exact NestedWithin.mono (n := 0) hnone (Nat.zero_le _)

/-- A composed value is nested no deeper than there are containers. -/
theorem Composed.nestedWithin {v : Value} (hv : h.Composed v) : h.NestedWithin h.containers v :=
  (nestedWithin_card hv.acc h.cells fun _ _ _ hu => mem_cells hu).mono h.card_cells_le

end Heap

end StagedScript
