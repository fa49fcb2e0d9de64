import Mathlib.Algebra.BigOperators.Group.List.Basic
import Mathlib.Algebra.GroupWithZero.Nat
import Mathlib.Data.List.Count
import StagedScript.Staging.Precompute

/-!
# Combinations in order

The arguments of a registered function are expanded to the product of their
dimensions.  Numbering the combinations from zero, each one is read off the digits
of its number, in the mixed radix whose bases are the sizes of the dimensions: the
digit at a place is the place of the candidate.
-/

namespace StagedScript.Staging

variable {α : Type}

/-- The combinations with one candidate from each dimension, the first dimension varying
slowest. -/
def product : List (List α) → List (List α)
  | [] => [[]]
  | candidates :: dimensions =>
    candidates.flatMap fun candidate => (product dimensions).map (candidate :: ·)

theorem length_product (dimensions : List (List α)) :
    (product dimensions).length = (dimensions.map List.length).foldr (· * ·) 1 := by
  induction dimensions with
  | nil => rfl
  | cons candidates dimensions ih =>
    simp [product, List.length_flatMap, ih, List.map_const']

/-- The expansion with the combinations that go on from the chosen candidates. -/
def Expansion.adding (e : Expansion α) (choices : List (List α)) : Expansion α :=
  { e with out := e.out ++ (choices.map fun choice => .tuple (e.current.toList ++ choice)).toArray }

theorem Expansion.adding_adding (e : Expansion α) (choices others : List (List α)) :
    (e.adding choices).adding others = e.adding (choices ++ others) := by
  simp [adding, Array.append_assoc]

/-- What is added to a chosen candidate is added to those before it once the candidate is taken
back. -/
theorem Expansion.pop_adding_push (e : Expansion α) (candidate : α) (choices : List (List α)) :
    ((e.push candidate).adding choices).pop = e.adding (choices.map (candidate :: ·)) := by
  simp [adding, push, pop, Function.comp_def]

/-- Whatever is chosen and whatever is there already, the product is added at the end, and the
chosen candidates are the same as before. -/
theorem run_addProduct (dimensions : List (List α)) (e : Expansion α) :
    (addProduct dimensions).run e = pure ((), e.adding (product dimensions)) := by
  induction dimensions generalizing e with
  | nil =>
    rw [addProduct, product, Expansion.adding, List.map_singleton, List.append_nil]
    simp [Expansion.complete]
  | cons candidates dimensions ih =>
    rw [addProduct, product, List.forM_eq_forM]
    induction candidates generalizing e with
    | nil => simp [Expansion.adding]
    | cons candidate candidates ihCandidates =>
      rw [List.forM_cons, StateT.run_bind]
      have hfirst : ((do
          modify (·.push candidate)
          addProduct dimensions
          modify (·.pop)) : StateM (Expansion α) Unit).run e =
            pure ((), e.adding ((product dimensions).map (candidate :: ·))) := by
        simp [ih, Expansion.pop_adding_push]
      rw [hfirst, pure_bind, ihCandidates, Expansion.adding_adding, List.flatMap_cons]

/-- Arguments with a tuple among them are expanded to the product of their dimensions. -/
theorem expand_eq (items? : α → Option (List α)) (args : List α) : expand items? args =
    if args.all fun arg => (items? arg).isNone then args.map .single
    else (product (args.map fun arg => (items? arg).getD [arg])).map .tuple := by
  rw [expand]
  split
  · next hempty => simp [List.isEmpty_iff.mp hempty]
  · dsimp only
    rw [run_addProduct]
    simp [Expansion.adding, pure]

/-! ## Digits -/

/-- The digit of a number at a place in the mixed radix with the given bases, of which the first
one is the most significant. -/
def digit (bases : List Nat) (place n : Nat) : Nat :=
  n / (bases.drop (place + 1)).prod % (bases[place]?).getD 1

theorem digit_zero {base n : Nat} {bases : List Nat} (hn : n < base * bases.prod) :
    digit (base :: bases) 0 n = n / bases.prod := by
  have hlt : n / bases.prod < base := Nat.div_lt_of_lt_mul (Nat.mul_comm base _ ▸ hn)
  exact Nat.mod_eq_of_lt hlt

/-- The digits after the first one are those of the remainder. -/
theorem digit_add_one (base : Nat) {bases : List Nat} {place : Nat} (hplace : place < bases.length)
    (n : Nat) : digit (base :: bases) (place + 1) n = digit bases place (n % bases.prod) := by
  have hsplit : bases.prod =
      (bases.drop (place + 1)).prod * ((bases.take place).prod * bases[place]) := by
    calc bases.prod = (bases.take (place + 1)).prod * (bases.drop (place + 1)).prod :=
          (List.prod_take_mul_prod_drop bases (place + 1)).symm
      _ = (bases.take place).prod * bases[place] * (bases.drop (place + 1)).prod := by
          rw [List.prod_take_succ bases place hplace]
      _ = _ := Nat.mul_comm _ _
  rw [digit, digit, List.getElem?_cons_succ, List.getElem?_eq_getElem hplace, Option.getD_some,
    List.drop_succ_cons, hsplit, Nat.mod_mul_right_div_self]
  exact (Nat.mod_mod_of_dvd _ (Nat.dvd_mul_left _ _)).symm

/-- The item at a place of blocks of one size is in the block that the quotient numbers, at the
remainder. -/
theorem getElem?_flatMap_of_length {β : Type} {f : α → List β} {size : Nat}
    (hsize : ∀ a, (f a).length = size) (as : List α) {n : Nat} (hn : n < as.length * size) :
    ∃ a, as[n / size]? = some a ∧ (as.flatMap f)[n]? = (f a)[n % size]? := by
  have hpos : 0 < size := Nat.pos_of_lt_mul_left hn
  induction as generalizing n with
  | nil =>
    rw [List.length_nil, Nat.zero_mul] at hn
    exact absurd hn (Nat.not_lt_zero n)
  | cons a as ih =>
    rw [List.flatMap_cons]
    by_cases hfirst : n < size
    · refine ⟨a, ?_, ?_⟩
      · rw [Nat.div_eq_of_lt hfirst, List.getElem?_cons_zero]
      · rw [Nat.mod_eq_of_lt hfirst, List.getElem?_append_left ((hsize a).symm ▸ hfirst)]
    · have hle : size ≤ n := Nat.le_of_not_lt hfirst
      have hrest : n - size < as.length * size := by
        rw [List.length_cons, Nat.succ_mul] at hn
        omega
      obtain ⟨b, hb, hitem⟩ := ih hrest
      have hquotient : n / size = (n - size) / size + 1 := Nat.div_eq_sub_div hpos hle
      have hremainder : n % size = (n - size) % size := Nat.mod_eq_sub_mod hle
      refine ⟨b, ?_, ?_⟩
      · rw [hquotient, List.getElem?_cons_succ, hb]
      · rw [hremainder, ← hitem, List.getElem?_append_right ((hsize a).symm ▸ hle), hsize]

/-- The combinations are numbered by their digits. -/
theorem getElem?_product (dimensions : List (List α)) {n : Nat}
    (hn : n < (dimensions.map List.length).prod) :
    ∃ values, (product dimensions)[n]? = some values ∧ values.length = dimensions.length ∧
      ∀ place candidates, dimensions[place]? = some candidates →
        values[place]? = candidates[digit (dimensions.map List.length) place n]? := by
  induction dimensions generalizing n with
  | nil =>
    obtain rfl : n = 0 := Nat.lt_one_iff.mp hn
    exact ⟨[], rfl, rfl, fun place candidates h => nomatch h⟩
  | cons first dimensions ih =>
    rw [List.map_cons, List.prod_cons] at hn
    have hlength : (product dimensions).length = (dimensions.map List.length).prod := by
      rw [length_product, List.prod_eq_foldr]
    have hpos : 0 < (dimensions.map List.length).prod := Nat.pos_of_lt_mul_left hn
    obtain ⟨values, hvalues, hsame, hplaces⟩ := ih (Nat.mod_lt n hpos)
    obtain ⟨value, hvalue, hitem⟩ := getElem?_flatMap_of_length
      (f := fun value => (product dimensions).map (value :: ·))
      (fun value => (List.length_map _).trans hlength) first hn
    refine ⟨value :: values, ?_, congrArg Nat.succ hsame, ?_⟩
    · rw [product, hitem, List.getElem?_map, hvalues, Option.map_some]
    intro place candidates hcandidates
    cases place with
    | zero =>
      obtain rfl : first = candidates := Option.some.inj hcandidates
      rw [List.map_cons, digit_zero hn, hvalue, List.getElem?_cons_zero]
    | succ place =>
      rw [List.getElem?_cons_succ] at hcandidates
      have hplace : place < (dimensions.map List.length).length := by
        rw [List.length_map]
        exact (List.getElem?_eq_some_iff.mp hcandidates).1
      rw [List.map_cons, digit_add_one _ hplace, List.getElem?_cons_succ]
      exact hplaces place candidates hcandidates

theorem sum_ite_eq_count [DecidableEq α] (as : List α) (value : α) (n : Nat) :
    (as.map fun a => if a = value then n else 0).sum = as.count value * n := by
  induction as with
  | nil => rw [List.map_nil, List.sum_nil, List.count_nil, Nat.zero_mul]
  | cons a as ih =>
    rw [List.map_cons, List.sum_cons, ih, List.count_cons, Nat.add_mul, Nat.add_comm]
    by_cases hsame : a = value
    · rw [if_pos hsame, if_pos (beq_iff_eq.mpr hsame), Nat.one_mul]
    · rw [if_neg hsame, if_neg (mt eq_of_beq hsame), Nat.zero_mul]

/-- A combination occurs as often as its values can be chosen. -/
theorem count_product [DecidableEq α] (dimensions : List (List α)) {values : List α}
    (hlength : values.length = dimensions.length) :
    (product dimensions).count values =
      (List.zipWith (fun value candidates => candidates.count value) values dimensions).prod := by
  induction dimensions generalizing values with
  | nil =>
    obtain rfl := List.length_eq_zero_iff.mp hlength
    rfl
  | cons first dimensions ih =>
    obtain ⟨value, values, rfl⟩ := List.exists_cons_of_length_eq_add_one hlength
    have hblock (candidate : α) :
        ((product dimensions).map (candidate :: ·)).count (value :: values) =
          if candidate = value then (product dimensions).count values else 0 := by
      split
      · next hsame =>
        rw [hsame]
        exact List.count_map_of_injective _ _ (List.cons_injective) values
      · next hother =>
        rw [List.count_eq_zero]
        intro hmem
        obtain ⟨_, -, hcons⟩ := List.mem_map.mp hmem
        exact hother (List.cons.inj hcons).1
    rw [product, List.count_flatMap, List.zipWith_cons_cons, List.prod_cons,
      ← ih (Nat.succ.inj hlength), ← sum_ite_eq_count]
    exact congrArg List.sum (List.map_congr_left fun candidate _ => hblock candidate)

/-! ## Expanded arguments -/

/-- The keys are the combinations of one candidate from each dimension, numbered by their digits,
and each occurs as often as its values can be chosen. -/
structure IsOrderedProduct [DecidableEq α] (dimensions : List (List α)) (keys : List (ArgKey α)) :
    Prop where
  length_eq : keys.length = (dimensions.map List.length).prod
  pick : ∀ n < (dimensions.map List.length).prod,
    ∃ values, keys[n]? = some (.tuple values) ∧ values.length = dimensions.length ∧
      ∀ place candidates, dimensions[place]? = some candidates →
        values[place]? = candidates[digit (dimensions.map List.length) place n]?
  count_eq : ∀ values, values.length = dimensions.length → keys.count (.tuple values) =
    (List.zipWith (fun value candidates => candidates.count value) values dimensions).prod

theorem isOrderedProduct_product [DecidableEq α] (dimensions : List (List α)) :
    IsOrderedProduct dimensions ((product dimensions).map .tuple) where
  length_eq := by
    rw [List.length_map, length_product, List.prod_eq_foldr]
  pick n hn := by
    obtain ⟨values, hvalues, hplaces⟩ := getElem?_product dimensions hn
    exact ⟨values, by rw [List.getElem?_map, hvalues, Option.map_some], hplaces⟩
  count_eq values hlength := by
    have hinjective : Function.Injective (ArgKey.tuple (α := α)) := fun _ _ => ArgKey.tuple.inj
    rw [List.count_map_of_injective _ _ hinjective, count_product dimensions hlength]

/-- The candidates for a parameter: the items of a tuple, or the only value. -/
def dimension (h : Heap) : Value → List Value
  | .tuple r => (h.tuple r).toList
  | v => [v]

/-- Without a tuple every argument is a combination of its own.  With one the combinations are the
ordered product of the candidates. -/
theorem expansion_is_ordered_product (h : Heap) (spec : List Value) :
    (spec ≠ [] → (∀ r, Value.tuple r ∉ spec) →
        expand (tupleItems? h) spec = spec.map .single) ∧
      ((∃ r, Value.tuple r ∈ spec) →
        IsOrderedProduct (spec.map (dimension h)) (expand (tupleItems? h) spec)) := by
  have hall : (spec.all fun v => (tupleItems? h v).isNone) = true ↔ ∀ r, Value.tuple r ∉ spec := by
    rw [List.all_eq_true]
    constructor
    · intro hnone r hmem
      exact Bool.noConfusion (hnone _ hmem)
    · intro hnone v hmem
      cases v with
      | tuple r => exact absurd hmem (hnone r)
      | _ => rfl
  constructor
  · intro _ hnone
    rw [expand_eq, if_pos (hall.mpr hnone)]
  · rintro ⟨r, hmem⟩
    have hdimensions : (spec.map fun v => (tupleItems? h v).getD [v]) = spec.map (dimension h) :=
      List.map_congr_left fun v _ => by cases v <;> rfl
    rw [expand_eq, if_neg fun hnone => hall.mp hnone r hmem, hdimensions]
    exact isOrderedProduct_product _

/-- A candidate that is listed twice makes its combinations occur twice, and a value beside the
tuples is in all of them. -/
theorem expansion_is_ordered_product_versions :
    let h : Heap :=
      { tuples := #[#[.string "v1", .string "v2", .string "v2"], #[.bool true, .bool false]] }
    let spec : List Value := [.tuple ⟨0⟩, .int 7, .tuple ⟨1⟩]
    (∃ r, Value.tuple r ∈ spec) ∧ (expand (tupleItems? h) spec).length = 6 ∧
      (expand (tupleItems? h) spec)[3]? = some (.tuple [.string "v2", .int 7, .bool false]) ∧
      (expand (tupleItems? h) spec).count (.tuple [.string "v2", .int 7, .bool false]) = 2 ∧
      [Value.int 7, .none] ≠ [] ∧ (∀ r, Value.tuple r ∉ [Value.int 7, .none]) ∧
      expand (tupleItems? h) [Value.int 7, .none] = [.single (.int 7), .single .none] := by
  intro h spec
  have htuple : ∃ r, Value.tuple r ∈ spec := ⟨⟨0⟩, List.mem_cons_self⟩
  have hflat : ∀ r, Value.tuple r ∉ [Value.int 7, .none] := by simp
  obtain ⟨hlength, hpick, hcount⟩ := (expansion_is_ordered_product h spec).2 htuple
  obtain ⟨values, hvalues, hsize, hplaces⟩ := hpick 3 (by decide)
  have hpicked : values = [.string "v2", .int 7, .bool false] := by
    apply List.ext_getElem?
    intro place
    match place with
    | 0 => exact (hplaces 0 _ rfl).trans (by decide)
    | 1 => exact (hplaces 1 _ rfl).trans (by decide)
    | 2 => exact (hplaces 2 _ rfl).trans (by decide)
    | place + 3 => exact List.getElem?_eq_none (hsize ▸ Nat.le_add_left 3 place)
  refine ⟨htuple, hlength, hpicked ▸ hvalues, ?_, List.cons_ne_nil _ _, hflat, ?_⟩
  · exact (hcount _ rfl).trans (by decide)
  · exact (expansion_is_ordered_product h _).1 (List.cons_ne_nil _ _) hflat

end StagedScript.Staging
