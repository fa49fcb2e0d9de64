import StagedScript.Value.Heap

/-!
# Comparing values where they lie

Equality, order and hashing, decided on the heap.  Containers are opened
only as far as the answer needs it, and two references to the same container
are equal without opening it, so values that share their parts are compared
without unfolding them.  The main statements `Heap.hashing_eq`, `Heap.order_eq`
and `Heap.isHashable_eq` say that each answer is that of the contents.
-/

namespace StagedScript

/-- Whether two sequences have the same length and equal items, compared from the first one on. -/
def sameItems {α : Type} (equal : α → α → Bool) (as bs : Array α) : Bool :=
  if h : as.size = bs.size then
    as.size.all fun i hi =>
      have : i < bs.size := h ▸ hi
      equal as[i] bs[i]
  else false

theorem sameItems_eq {α : Type} (equal : α → α → Bool) (as bs : Array α) :
    sameItems equal as bs = as.toList.isEqv bs.toList equal := by
  rw [List.isEqv_eq_decide, sameItems]
  split
  · next h =>
    rw [Nat.all_eq_finRange_all, Bool.eq_iff_iff]
    simp [h, Fin.forall_iff]
  · next h => simp [h]

theorem sameItems_iff {α : Type} {equal : α → α → Bool} {as bs : Array α} : sameItems equal as bs = true ↔
    as.size = bs.size ∧
      ∀ (i : Nat) (a b : α), as[i]? = some a → bs[i]? = some b → equal a b = true := by
  rw [sameItems]
  split
  · next hsize =>
    rw [Nat.all_eq_finRange_all, List.all_eq_true]
    constructor
    · refine fun hall => ⟨hsize, fun i a b ha hb => ?_⟩
      obtain ⟨hi, rfl⟩ := Array.getElem?_eq_some_iff.mp ha
      obtain ⟨_, rfl⟩ := Array.getElem?_eq_some_iff.mp hb
      exact hall ⟨i, hi⟩ (List.mem_finRange _)
    · rintro ⟨-, hitems⟩ i -
      exact hitems i _ _ (Array.getElem?_eq_getElem _) (Array.getElem?_eq_getElem _)
  · next hsize => simp [hsize]

/-- The order of two sequences: that of the first items that differ, or else that of the
lengths. -/
def sequenceOrder {α ε : Type} (equal : α → α → Bool)
    (order : α → α → Except ε (Option Ordering)) : List α → List α → Except ε (Option Ordering)
  | a :: as, b :: bs => if equal a b then sequenceOrder equal order as bs else order a b
  | [], [] => .ok (some .eq)
  | [], _ :: _ => .ok (some .lt)
  | _ :: _, [] => .ok (some .gt)

namespace Datum

variable {digest : Digest}

theorem equalItems_map {α : Type} (view : α → Datum) (equal : α → α → Bool)
    (h : ∀ a b, (view a).equal digest (view b) = equal a b) (as bs : List α) :
    equalItems digest (as.map view) (bs.map view) = as.isEqv bs equal := by
  induction as generalizing bs with
  | nil => cases bs <;> rfl
  | cons a as ih =>
    cases bs with
    | nil => rfl
    | cons b bs => simp [equalItems, List.isEqv, h, ih]

theorem itemWrites_eq_flatMap (ds : List Datum) : itemWrites ds = ds.flatMap hashWrites := by
  induction ds with
  | nil => rfl
  | cons d ds ih => rw [itemWrites, ih, List.flatMap_cons]

theorem includedIn_map {α : Type} (view : α → Datum) (as bs : List (α × α)) :
    includedIn digest (as.map fun (key, value) => (view key, view value))
        (bs.map fun (key, value) => (view key, view value)) =
      as.all fun entry =>
        (bs.find? fun other => ((hashing digest).on view).finds entry.1 other.1).any
          fun other => ((hashing digest).on view).equal entry.2 other.2 := by
  induction as with
  | nil => rfl
  | cons a as ih =>
    simp only [List.map_cons, includedIn, List.all_cons, ih, List.find?_map, Option.any_map]
    rfl

theorem orderItems_map {α : Type} (view : α → Datum) (equal : α → α → Bool)
    (order : α → α → Except Unordered (Option Ordering))
    (hequal : ∀ a b, (view a).equal digest (view b) = equal a b)
    (horder : ∀ a b, (view a).order digest (view b) = order a b) (as bs : List α) :
    orderItems digest (as.map view) (bs.map view) = sequenceOrder equal order as bs := by
  induction as generalizing bs with
  | nil => cases bs <;> simp [orderItems, sequenceOrder]
  | cons a as ih =>
    cases bs with
    | nil => simp [orderItems, sequenceOrder]
    | cons b bs => simp [orderItems, sequenceOrder, hequal, horder, ih]

theorem areHashable_eq_all (ds : List Datum) : areHashable ds = ds.all isHashable := by
  induction ds with
  | nil => rfl
  | cons d ds ih => simp [areHashable, ih]

end Datum

namespace Heap

/-- Whether a value can be a key, as far as it can be told within a depth. -/
def isHashableWithin (h : Heap) : Nat → Value → Bool
  | _, .list _ => false
  | _, .dict _ => false
  | n + 1, .tuple r => (h.tuple r).all (h.isHashableWithin n)
  | _, _ => true

theorem isHashableWithin_eq (h : Heap) (n : Nat) (v : Value) :
    h.isHashableWithin n v = (h.viewWithin n v).isHashable := by
  induction n generalizing v with
  | zero => cases v <;> rfl
  | succ n ih =>
    cases v with
    | tuple r =>
      simp only [isHashableWithin, viewWithin, Datum.isHashable, Datum.areHashable_eq_all,
        List.all_map, Function.comp_def, ← ih, Array.all_toList]
    | _ => rfl

/-- Whether a value can be a key: it holds no list and no dictionary. -/
def isHashable (h : Heap) (v : Value) : Bool :=
  h.isHashableWithin h.containers v

theorem isHashable_eq (h : Heap) (v : Value) : h.isHashable v = (h.view v).isHashable :=
  h.isHashableWithin_eq _ v

/-- What a value writes to be hashed, with tuples opened up to a depth. -/
def hashWritesWithin (h : Heap) : Nat → Value → List HashWrite
  | _, .constant c => c.hashWrites
  | 0, .tuple _ => [.byte 5]
  | n + 1, .tuple r => .byte 5 :: (h.tuple r).toList.flatMap (h.hashWritesWithin n)
  | _, .list _ => [.kind 6]
  | _, .dict _ => [.kind 7]
  | _, .method _ _ => [.kind 10]
  | _, .awaiting _ => [.kind 12]
  | _, .entity e => [.kind e.kindPlace]

theorem hashWritesWithin_eq (h : Heap) (n : Nat) (v : Value) :
    h.hashWritesWithin n v = (h.viewWithin n v).hashWrites := by
  induction n generalizing v with
  | zero => cases v <;> rfl
  | succ n ih =>
    cases v with
    | tuple r =>
      simp only [hashWritesWithin, viewWithin, Datum.hashWrites, Datum.itemWrites_eq_flatMap,
        List.flatMap_map, ← ih]
    | _ => rfl

/-- Equality within a depth; below it containers of one type count as equal. -/
def equalWithin (h : Heap) : Nat → Value → Value → Bool
  | _, .constant a, .constant b => Datum.constantsEqual a b
  | _, .entity a, .entity b => a == b
  | 0, .tuple _, .tuple _ => true
  | 0, .list _, .list _ => true
  | 0, .dict _, .dict _ => true
  | 0, .awaiting _, .awaiting _ => true
  | n + 1, .tuple r, .tuple s =>
    r == s || sameItems (h.equalWithin n) (h.tuple r) (h.tuple s)
  | n + 1, .list r, .list s =>
    r == s || sameItems (h.equalWithin n) (h.list r) (h.list s)
  | n + 1, .dict r, .dict s =>
    r == s || Hashing.sameEntries ⟨h.digest, h.hashWritesWithin n, h.equalWithin n⟩
      (h.dict r) (h.dict s)
  | n + 1, .awaiting r, .awaiting s =>
    r == s || sameItems (h.equalWithin n) (h.tuple r) (h.tuple s)
  | _, _, _ => false

/-- How values are hashed and compared within a depth. -/
def hashingWithin (h : Heap) (n : Nat) : Hashing Value :=
  ⟨h.digest, h.hashWritesWithin n, h.equalWithin n⟩

theorem hashingWithin_eq_of_equal {h : Heap} {n : Nat}
    (hequal : ∀ a b, h.equalWithin n a b = (h.viewWithin n a).equal h.digest (h.viewWithin n b)) :
    h.hashingWithin n = (Datum.hashing h.digest).on (h.viewWithin n) := by
  simp only [hashingWithin, Hashing.on, Datum.hashing, ← hashWritesWithin_eq, ← hequal]

theorem equalWithin_eq (h : Heap) (n : Nat) (a b : Value) :
    h.equalWithin n a b = (h.viewWithin n a).equal h.digest (h.viewWithin n b) := by
  induction n generalizing a b with
  | zero => cases a <;> cases b <;> simp [equalWithin, viewWithin, Datum.equal, Datum.equalItems,
      Datum.includedIn]
  | succ n ih =>
    have hview : ∀ a b, (h.viewWithin n a).equal h.digest (h.viewWithin n b) = h.equalWithin n a b :=
      fun a b => (ih a b).symm
    have hhashing := hashingWithin_eq_of_equal ih
    cases a <;> cases b <;>
      simp [equalWithin, viewWithin, Datum.equal, Datum.equalItems_map _ _ hview,
        Datum.includedIn_map, ← hhashing, hashingWithin, sameItems_eq, Hashing.sameEntries]

theorem hashingWithin_eq (h : Heap) (n : Nat) :
    h.hashingWithin n = (Datum.hashing h.digest).on (h.viewWithin n) :=
  hashingWithin_eq_of_equal (h.equalWithin_eq n)

def equal (h : Heap) (a b : Value) : Bool :=
  h.equalWithin h.containers a b

theorem equal_eq (h : Heap) (a b : Value) :
    h.equal a b = (h.view a).equal h.digest (h.view b) :=
  h.equalWithin_eq _ a b

/-- The order within a depth; below it containers of one type count as equal. -/
def orderWithin (h : Heap) : Nat → Value → Value → Except Datum.Unordered (Option Ordering)
  | _, .constant a, .constant b => Datum.constantsOrder a b
  | 0, .tuple _, .tuple _ => .ok (some .eq)
  | 0, .list _, .list _ => .ok (some .eq)
  | n + 1, .tuple r, .tuple s =>
    sequenceOrder (h.equalWithin n) (h.orderWithin n) (h.tuple r).toList (h.tuple s).toList
  | n + 1, .list r, .list s =>
    sequenceOrder (h.equalWithin n) (h.orderWithin n) (h.list r).toList (h.list s).toList
  | _, a, b => .error ⟨a.typeName, b.typeName⟩

theorem orderWithin_eq (h : Heap) (n : Nat) (a b : Value) :
    h.orderWithin n a b = (h.viewWithin n a).order h.digest (h.viewWithin n b) := by
  induction n generalizing a b with
  | zero =>
    cases a <;> cases b <;>
      simp [orderWithin, viewWithin, Datum.order, Datum.orderItems, Value.typeName,
        Datum.typeName]
  | succ n ih =>
    have hequal : ∀ a b,
        (h.viewWithin n a).equal h.digest (h.viewWithin n b) = h.equalWithin n a b :=
      fun a b => (h.equalWithin_eq n a b).symm
    have horder : ∀ a b,
        (h.viewWithin n a).order h.digest (h.viewWithin n b) = h.orderWithin n a b :=
      fun a b => (ih a b).symm
    cases a <;> cases b <;>
      simp [orderWithin, viewWithin, Datum.order, Datum.orderItems_map _ _ _ hequal horder,
        Value.typeName, Datum.typeName]

/-- The order of two values, if their types have one. -/
def order (h : Heap) (a b : Value) : Except Datum.Unordered (Option Ordering) :=
  h.orderWithin h.containers a b

theorem order_eq (h : Heap) (a b : Value) : h.order a b = (h.view a).order h.digest (h.view b) :=
  h.orderWithin_eq _ a b

def precedes (h : Heap) (a b : Value) : Except Datum.Unordered Bool :=
  (h.order a b).map (· == some .lt)

/-- How values are hashed and compared as keys. -/
def hashing (h : Heap) : Hashing Value :=
  h.hashingWithin h.containers

theorem hashing_eq (h : Heap) : h.hashing = (Datum.hashing h.digest).on h.view :=
  h.hashingWithin_eq _

/-- The place of a key among the entries of a dictionary. -/
def keyIndex? (h : Heap) (key : Value) (entries : Array (Value × Value)) : Option Nat :=
  let keys := h.hashing
  entries.findIdx? fun entry => keys.finds key entry.1

/-- The value under a key. -/
def valueAt? (h : Heap) (key : Value) (entries : Array (Value × Value)) : Option Value :=
  let keys := h.hashing
  (entries.find? fun entry => keys.finds key entry.1).map (·.2)

/-- Gives a key a value.  A key that is there keeps its place and its form. -/
def insertEntry (h : Heap) (key value : Value) (entries : Array (Value × Value)) :
    Array (Value × Value) :=
  match h.keyIndex? key entries with
  | some i => entries.modify i fun entry => (entry.1, value)
  | none => entries.push (key, value)

end Heap

end StagedScript
