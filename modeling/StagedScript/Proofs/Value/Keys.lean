import StagedScript.Proofs.Decimal.Comparison
import StagedScript.Proofs.Machine.Fixed
import StagedScript.Proofs.Value.Equality
import StagedScript.Proofs.Value.Hashing

/-!
# Keys by their contents

Keys agree if their contents are equal, whole numbers and doubles alike.  This is
symmetric, and transitive as far as doubles tell the whole numbers apart.
Whether a value agrees with a key is settled when the value is made: no change
of the heap makes a difference.
-/

namespace StagedScript

open Syntax (Constant)

namespace Datum

/-! ## Agreement -/

theorem constantsEqual_symm (a b : Constant) : constantsEqual b a = constantsEqual a b := by
  have hbeq (x y : Float) : (y == x) = (x == y) :=
    Bool.eq_iff_iff.mpr ⟨Decimal.beq_symm, Decimal.beq_symm⟩
  cases a <;> cases b <;> first | rfl | exact hbeq _ _ | exact Bool.beq_comm

mutual

theorem agrees_symm (a b : Datum) : b.agrees a = a.agrees b := by
  match a, b with
  | .constant c, .constant d => exact constantsEqual_symm c d
  | .tuple _ as, .tuple _ bs => exact agreeItems_symm as bs
  | .constant _, .tuple _ _ | .constant _, .list _ _ | .constant _, .dict _ _
  | .constant _, .entity _ | .constant _, .method _ _ | .constant _, .awaiting _ _
  | .tuple _ _, .constant _ | .tuple _ _, .list _ _ | .tuple _ _, .dict _ _
  | .tuple _ _, .entity _ | .tuple _ _, .method _ _ | .tuple _ _, .awaiting _ _ => rfl
  | .list _ _, b | .dict _ _, b | .entity _, b | .method _ _, b | .awaiting _ _, b =>
    cases b <;> rfl

theorem agreeItems_symm (as bs : List Datum) : agreeItems bs as = agreeItems as bs := by
  match as, bs with
  | [], [] | [], _ :: _ | _ :: _, [] => rfl
  | a :: as, b :: bs => rw [agreeItems, agreeItems, agrees_symm a b, agreeItems_symm as bs]

end

mutual

/-- Whether all whole numbers in a key are told apart by their doubles. -/
def IsExact : Datum → Prop
  | .constant (.int n) => n.toInt.natAbs ≤ 2 ^ 53
  | .tuple _ items => AreExact items
  | _ => True

def AreExact : List Datum → Prop
  | [] => True
  | item :: items => item.IsExact ∧ AreExact items

end

/-- Constants that equal the same one are equal. -/
theorem constantsEqual_of_common {a b c : Constant} (ha : (Datum.constant a).IsExact)
    (hb : (Datum.constant b).IsExact) (hac : constantsEqual a c = true)
    (hbc : constantsEqual b c = true) : constantsEqual a b = true := by
  have hfloat {x y z : Float} (hxz : (x == z) = true) (hyz : (y == z) = true) :
      (x == y) = true := Decimal.beq_trans hxz (Decimal.beq_symm hyz)
  match a, c, b, hac, hbc with
  | .none, .none, .none, _, _ => rfl
  | .bool p, .bool r, .bool q, hac, hbc =>
    exact beq_iff_eq.mpr ((eq_of_beq hac).trans (eq_of_beq hbc).symm)
  | .string s, .string u, .string t, hac, hbc =>
    exact beq_iff_eq.mpr ((eq_of_beq hac).trans (eq_of_beq hbc).symm)
  | .int m, .int k, .int n, hac, hbc =>
    exact beq_iff_eq.mpr ((eq_of_beq hac).trans (eq_of_beq hbc).symm)
  | .int m, .float z, .int n, hac, hbc =>
    exact beq_iff_eq.mpr (Decimal.eq_of_ofInt64_beq ha hb (hfloat hac hbc))
  | .int m, .int k, .float y, hac, hbc => exact eq_of_beq hac ▸ hbc
  | .int m, .float z, .float y, hac, hbc => exact hfloat hac hbc
  | .float x, .int k, .int n, hac, hbc => exact eq_of_beq hbc ▸ hac
  | .float x, .int k, .float y, hac, hbc =>
    exact hfloat (Decimal.beq_symm hac) (Decimal.beq_symm hbc)
  | .float x, .float z, .int n, hac, hbc => exact hfloat hbc hac
  | .float x, .float z, .float y, hac, hbc => exact hfloat hac hbc

mutual

/-- Keys that agree with the same datum agree with each other. -/
theorem agrees_of_common (a b c : Datum) (ha : a.IsExact) (hb : b.IsExact)
    (hac : a.agrees c = true) (hbc : b.agrees c = true) : a.agrees b = true := by
  match a, c, b, ha, hb, hac, hbc with
  | .constant _, .constant _, .constant _, ha, hb, hac, hbc =>
    exact constantsEqual_of_common ha hb hac hbc
  | .tuple _ as, .tuple _ cs, .tuple _ bs, ha, hb, hac, hbc =>
    exact agreeItems_of_common as bs cs ha hb hac hbc

theorem agreeItems_of_common (as bs cs : List Datum) (has : AreExact as) (hbs : AreExact bs)
    (hac : agreeItems as cs = true) (hbc : agreeItems bs cs = true) :
    agreeItems as bs = true := by
  match as, cs, bs, has, hbs, hac, hbc with
  | [], [], [], _, _, _, _ => rfl
  | a :: as, c :: cs, b :: bs, has, hbs, hac, hbc =>
    have hac' := Bool.and_eq_true_iff.mp hac
    have hbc' := Bool.and_eq_true_iff.mp hbc
    rw [agreeItems, agrees_of_common a b c has.1 hbs.1 hac'.1 hbc'.1,
      agreeItems_of_common as bs cs has.2 hbs.2 hac'.2 hbc'.2]
    rfl

end

mutual

/-- Keys that agree write the same if their doubles tell whole numbers apart. -/
theorem hashWrites_of_agrees (a b : Datum) (ha : a.IsExact) (hb : b.IsExact)
    (h : a.agrees b = true) : a.hashWrites = b.hashWrites := by
  match a, b, ha, hb, h with
  | .constant c, .constant d, ha, hb, h =>
    refine Constant.hashWrites_of_constantsEqual ?_ ?_ h
    · rintro n rfl
      exact ha
    · rintro n rfl
      exact hb
  | .tuple _ as, .tuple _ bs, ha, hb, h =>
    exact congrArg (HashWrite.byte 5 :: ·) (itemWrites_of_agreeItems as bs ha hb h)

theorem itemWrites_of_agreeItems (as bs : List Datum) (has : AreExact as) (hbs : AreExact bs)
    (h : agreeItems as bs = true) : itemWrites as = itemWrites bs := by
  match as, bs, has, hbs, h with
  | [], [], _, _, _ => rfl
  | a :: as, b :: bs, has, hbs, h =>
    have hboth := Bool.and_eq_true_iff.mp h
    rw [itemWrites, itemWrites, hashWrites_of_agrees a b has.1 hbs.1 hboth.1,
      itemWrites_of_agreeItems as bs has.2 hbs.2 hboth.2]

end

/-- How keys are hashed and compared by their contents. -/
def keying (digest : Digest) : Hashing Datum :=
  ⟨digest, hashWrites, agrees⟩

theorem keying_finds {digest : Digest} {a b : Datum} (ha : a.IsExact) (hb : b.IsExact) :
    (keying digest).finds a b = a.agrees b :=
  Hashing.AgreesOn.finds_eq (p := IsExact) (fun a b ha hb => hashWrites_of_agrees a b ha hb) ha hb

/-! ## Outlines -/

mutual

/-- The datum without identities and without what is inside of lists, dictionaries and waiting
markers. -/
def outline : Datum → Datum
  | .tuple _ items => .tuple ⟨0⟩ (outlines items)
  | .list _ _ => .list ⟨0⟩ []
  | .dict _ _ => .dict ⟨0⟩ []
  | .awaiting _ _ => .awaiting ⟨0⟩ []
  | d => d

def outlines : List Datum → List Datum
  | [] => []
  | item :: items => item.outline :: outlines items

end

theorem outlines_eq_map (items : List Datum) : outlines items = items.map outline := by
  induction items with
  | nil => rfl
  | cons item items ih => rw [outlines, ih, List.map_cons]

theorem typeName_outline (d : Datum) : d.outline.typeName = d.typeName := by
  cases d <;> rfl

mutual

theorem isHashable_outline (d : Datum) : d.outline.isHashable = d.isHashable := by
  match d with
  | .tuple _ items => exact areHashable_outlines items
  | .constant _ | .list _ _ | .dict _ _ | .entity _ | .method _ _ | .awaiting _ _ => rfl

theorem areHashable_outlines (items : List Datum) :
    areHashable (outlines items) = areHashable items := by
  match items with
  | [] => rfl
  | item :: items =>
    rw [outlines, areHashable, areHashable, isHashable_outline item, areHashable_outlines items]

end

mutual

theorem agrees_outline (a b : Datum) : a.outline.agrees b = a.agrees b := by
  match a, b with
  | .tuple _ as, .tuple _ bs => exact agreeItems_outlines as bs
  | .constant _, b => rfl
  | .tuple _ _, .constant _ | .tuple _ _, .list _ _ | .tuple _ _, .dict _ _
  | .tuple _ _, .entity _ | .tuple _ _, .method _ _ | .tuple _ _, .awaiting _ _ => rfl
  | .list _ _, b | .dict _ _, b | .entity _, b | .method _ _, b | .awaiting _ _, b =>
    cases b <;> rfl

theorem agreeItems_outlines (as bs : List Datum) :
    agreeItems (outlines as) bs = agreeItems as bs := by
  match as, bs with
  | [], [] | [], _ :: _ | _ :: _, [] => rfl
  | a :: as, b :: bs =>
    rw [outlines, agreeItems, agreeItems, agrees_outline a b, agreeItems_outlines as bs]

end

mutual

theorem hashWrites_outline (d : Datum) : d.outline.hashWrites = d.hashWrites := by
  match d with
  | .tuple _ items => exact congrArg (HashWrite.byte 5 :: ·) (itemWrites_outlines items)
  | .constant _ | .list _ _ | .dict _ _ | .entity _ | .method _ _ | .awaiting _ _ => rfl

theorem itemWrites_outlines (items : List Datum) :
    itemWrites (outlines items) = itemWrites items := by
  match items with
  | [] => rfl
  | item :: items =>
    rw [outlines, itemWrites, itemWrites, hashWrites_outline item, itemWrites_outlines items]

end

theorem keying_finds_outline {digest : Digest} (a b : Datum) :
    (keying digest).finds a.outline b = (keying digest).finds a b := by
  change (a.outline.agrees b && digest a.outline.hashWrites == _) = _
  rw [agrees_outline, hashWrites_outline]
  rfl

mutual

/-- The written form of what can be a key does not show more than its outline. -/
theorem repr_outline (d : Datum) (h : d.isHashable = true) : d.outline.repr = d.repr := by
  match d, h with
  | .tuple _ items, h => exact congrArg tupleText (reprItems_outlines items h)
  | .constant _, _ | .entity _, _ | .method _ _, _ | .awaiting _ _, _ => rfl

theorem reprItems_outlines (items : List Datum) (h : areHashable items = true) :
    reprItems (outlines items) = reprItems items := by
  match items, h with
  | [], _ => rfl
  | item :: items, h =>
    have hboth := Bool.and_eq_true_iff.mp h
    rw [outlines, reprItems, reprItems, repr_outline item hboth.1,
      reprItems_outlines items hboth.2]

end

mutual

/-- What agrees with something can be a key. -/
theorem isHashable_of_agrees (a b : Datum) (h : a.agrees b = true) : a.isHashable = true := by
  match a, b, h with
  | .constant _, .constant _, _ => rfl
  | .tuple _ as, .tuple _ bs, h => exact areHashable_of_agreeItems as bs h

theorem areHashable_of_agreeItems (as bs : List Datum) (h : agreeItems as bs = true) :
    areHashable as = true := by
  match as, bs, h with
  | [], [], _ => rfl
  | a :: as, b :: bs, h =>
    have hboth := Bool.and_eq_true_iff.mp h
    rw [areHashable, isHashable_of_agrees a b hboth.1, areHashable_of_agreeItems as bs hboth.2]
    rfl

end

mutual

theorem IsKey.isLiteral (d : Datum) (h : d.IsKey) : d.IsLiteral := by
  match d, h with
  | .constant (.float _), h => exact h
  | .constant .none, _ | .constant (.bool _), _ | .constant (.int _), _
  | .constant (.string _), _ => trivial
  | .tuple _ items, h => exact AreKeys.areLiteral items h

theorem AreKeys.areLiteral (items : List Datum) (h : AreKeys items) : AreLiteral items := by
  match items, h with
  | [], _ => trivial
  | item :: items, h => exact ⟨IsKey.isLiteral item h.1, AreKeys.areLiteral items h.2⟩

end

mutual

/-- There is no dictionary in a key. -/
theorem IsKey.proper (d : Datum) (h : d.IsKey) : d.Proper := by
  match d, h with
  | .constant _, _ => trivial
  | .tuple _ items, h => exact AreKeys.areProper items h

theorem AreKeys.areProper (items : List Datum) (h : AreKeys items) : AreProper items := by
  match items, h with
  | [], _ => trivial
  | item :: items, h => exact ⟨IsKey.proper item h.1, AreKeys.areProper items h.2⟩

end

end Datum

namespace Heap

variable {guard : Guard} {h h' : Heap}

/-- On a later heap a value has the outline that it had, to any depth that reaches its end. -/
theorem outline_viewWithin (hs : h.Sound guard) (hg : h.Grows guard h') {v : Value} {n : Extent}
    (hn : v.Within guard n) (hle : n.tuples ≤ h.tuples.size) {k k' : Nat} (hk : n.tuples ≤ k)
    (hk' : n.tuples ≤ k') : (h'.viewWithin k' v).outline = (h.viewWithin k v).outline := by
  induction k generalizing v n k' with
  | zero =>
    cases v with
    | tuple r | awaiting r => exact absurd (Nat.lt_of_lt_of_le hn hk) (Nat.not_lt_zero _)
    | _ => cases k' <;> rfl
  | succ k ih =>
    cases v with
    | tuple r =>
      have hr : r.index < n.tuples := hn
      obtain ⟨k', rfl⟩ := Nat.exists_eq_add_one_of_ne_zero (show k' ≠ 0 by omega)
      rw [viewWithin, viewWithin, Datum.outline, Datum.outline, Datum.outlines_eq_map,
        Datum.outlines_eq_map, List.map_map, List.map_map,
        hg.tuple_eq (Nat.lt_of_lt_of_le hr hle)]
      congr 1
      refine List.map_congr_left fun item hitem => ?_
      obtain ⟨hwithin, hlt⟩ := hs.within_tuple (Array.mem_toList_iff.mp hitem)
      exact ih hwithin (Nat.le_of_lt hlt) (by change r.index ≤ k; omega)
        (by change r.index ≤ k'; omega)
    | _ => cases k' <;> rfl

/-- A value is found where a key of the heap is if it is found where its contents are. -/
theorem finds_eq_keying {n : Nat} {v key : Value} {k : Datum} (hkey : h.Shows n key k)
    (hk : k.IsKey) :
    (h.hashingWithin n).finds v key = (Datum.keying h.digest).finds (h.viewWithin n v) k := by
  have hequal : h.equalWithin n v key = (h.viewWithin n v).agrees k := by
    rw [Bool.eq_iff_iff]
    constructor
    · intro hequal
      exact Shows.agrees_of_equalWithin (show h.Shows n v _ from rfl) hkey (.inr hk) hequal
    · intro hagrees
      rw [← Datum.agrees_contents, ← show _ = _ from hkey, Datum.agrees_contents] at hagrees
      rw [equalWithin_eq]
      exact Datum.equal_of_agrees _ _ _ hagrees
  have hwrites : h.hashWritesWithin n key = k.hashWrites := by
    rw [hashWritesWithin_eq, ← Datum.hashWrites_contents, show _ = _ from hkey,
      Datum.hashWrites_contents]
  rw [Hashing.finds, show (h.hashingWithin n).equal v key = _ from hequal,
    show (h.hashingWithin n).writes key = _ from hwrites,
    show (h.hashingWithin n).writes v = _ from h.hashWritesWithin_eq n v]
  rfl

end Heap

end StagedScript
