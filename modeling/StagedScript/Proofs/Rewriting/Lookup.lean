import Mathlib.Data.List.Pairwise
import StagedScript.Proofs.Rewriting.Subject
import StagedScript.Proofs.Value.Keys

/-!
# What a body with a dictionary does

A body that looks its parameters up builds a dictionary of all results.  It
returns the result under the key that agrees with the arguments, or raises the
exception of a failed look-up.
-/

namespace StagedScript

namespace Rewriting

open Evaluation
open Syntax (Entry Expr)
open Run (bind_of_error bind_of_ok getHeap_ok view_ok)
open Staging (ArgKey)

variable {s : Services} {scope : Scope} {function : String} {guard : Guard}

/-! ## Keys -/

/-- The datum that is looked up: the only argument, or the tuple of several. -/
def subjectDatum : List Datum → Datum
  | [d] => d
  | ds => .tuple ⟨0⟩ ds

theorem subjectDatum_of_length_ne {ds : List Datum} (h : ds.length ≠ 1) :
    subjectDatum ds = .tuple ⟨0⟩ ds := by
  unfold subjectDatum
  split
  · exact absurd rfl h
  · rfl

theorem isHashable_subjectDatum (ds : List Datum) :
    (subjectDatum ds).isHashable = Datum.areHashable ds := by
  unfold subjectDatum
  split
  · exact (Bool.and_true _).symm
  · rfl

theorem agrees_subjectDatum {ds es : List Datum} (h : ds.length = es.length) :
    (subjectDatum ds).agrees (subjectDatum es) = Datum.agreeItems ds es := by
  by_cases hlength : ds.length = 1
  · obtain ⟨d, rfl⟩ := List.length_eq_one_iff.mp hlength
    obtain ⟨e, rfl⟩ := List.length_eq_one_iff.mp (h.symm.trans hlength)
    exact (Bool.and_true _).symm
  · rw [subjectDatum_of_length_ne hlength, subjectDatum_of_length_ne (h ▸ hlength)]
    rfl

theorem keyLiteral_eq_ok {d : Datum} {e : Expr} (h : keyLiteral function d = .ok e) :
    d.IsKey ∧ e = d.expression := by
  unfold keyLiteral at h
  split at h
  · next hhashable =>
    obtain ⟨hd, he⟩ := (literal_eq_ok function d e).mp h
    exact ⟨hd.isKey d hhashable, he⟩
  · exact nomatch h

theorem keyLiterals_eq_ok {ds : List Datum} {es : List Expr}
    (h : ds.mapM (keyLiteral function) = .ok es) :
    Datum.AreKeys ds ∧ es = Datum.itemExpressions ds := by
  induction ds generalizing es with
  | nil =>
    cases h
    exact ⟨trivial, rfl⟩
  | cons d ds ih =>
    rw [List.mapM_cons] at h
    obtain ⟨e, he, h⟩ := exists_of_bind_eq_ok h
    obtain ⟨es, hes, h⟩ := exists_of_bind_eq_ok h
    cases h
    obtain ⟨hd, rfl⟩ := keyLiteral_eq_ok he
    obtain ⟨hds, rfl⟩ := ih hes
    exact ⟨⟨hd, hds⟩, rfl⟩

theorem keyExpr_eq_ok {params : List String} {key : ArgKey Datum} {e : Expr}
    (h : keyExpr function params key = .ok e) (hkey : key.values.length = params.length) :
    (subjectDatum key.values).IsKey ∧ e = (subjectDatum key.values).expression := by
  unfold keyExpr at h
  split at h
  · next hvalues =>
    rw [hvalues]
    exact keyLiteral_eq_ok h
  · next hmany =>
    obtain ⟨es, hes, h⟩ := exists_of_bind_eq_ok h
    cases h
    obtain ⟨hkeys, rfl⟩ := keyLiterals_eq_ok hes
    rw [subjectDatum_of_length_ne]
    · exact ⟨hkeys, rfl⟩
    · intro hlength
      obtain ⟨d, hd⟩ := List.length_eq_one_iff.mp hlength
      obtain ⟨param, hparam⟩ := List.length_eq_one_iff.mp (hkey.symm.trans hlength)
      exact hmany d param hd hparam

def table (variants : List Variant) : List (Datum × Datum) :=
  variants.map fun v => (subjectDatum v.1.values, v.2)

theorem variantEntries_eq_ok {params : List String} {variants : List Variant}
    {entries : List Entry} (h : variants.mapM (variantEntry function params) = .ok entries)
    (hkeys : ∀ v ∈ variants, v.1.values.length = params.length) :
    (∀ entry ∈ table variants, entry.1.IsKey) ∧ Datum.AreLiteralEntries (table variants) ∧
      entries = Datum.entryExpressions (table variants) := by
  induction variants generalizing entries with
  | nil =>
    cases h
    exact ⟨nofun, trivial, rfl⟩
  | cons v variants ih =>
    rw [List.mapM_cons] at h
    obtain ⟨entry, hentry, h⟩ := exists_of_bind_eq_ok h
    obtain ⟨entries, hentries, h⟩ := exists_of_bind_eq_ok h
    cases h
    obtain ⟨key, hkeyExpr, hentry⟩ := exists_of_bind_eq_ok hentry
    obtain ⟨value, hvalueExpr, hentry⟩ := exists_of_bind_eq_ok hentry
    cases hentry
    obtain ⟨hkey, rfl⟩ := keyExpr_eq_ok hkeyExpr (hkeys v List.mem_cons_self)
    obtain ⟨hvalue, rfl⟩ := (literal_eq_ok function v.2 value).mp hvalueExpr
    obtain ⟨htable, hliteral, rfl⟩ := ih hentries fun w hw => hkeys w (List.mem_cons_of_mem _ hw)
    exact ⟨List.forall_mem_cons.mpr ⟨hkey, htable⟩, ⟨⟨hkey.isLiteral _, hvalue⟩, hliteral⟩, rfl⟩

/-- The keys of the dictionary are distinct if those of the variants are. -/
theorem distinctKeys_table {variants : List Variant} {n : Nat}
    (hkeys : ∀ v ∈ variants, v.1.values.length = n)
    (hdistinct : variants.Pairwise fun v w => Datum.agreeItems v.1.values w.1.values = false)
    (htable : ∀ entry ∈ table variants, entry.1.IsKey) : Datum.ProperKeys (table variants) := by
  refine ⟨fun entry hentry => ?_, List.pairwise_map.mpr ?_⟩
  · exact Datum.isHashable_of_agrees _ _ (Datum.agrees_self _ (htable entry hentry))
  · refine hdistinct.imp_of_mem fun {v w} hv hw hnot => ?_
    rw [agrees_subjectDatum ((hkeys w hw).trans (hkeys v hv).symm), ← Datum.agreeItems_symm]
    exact hnot

theorem areProperEntries_table {variants : List Variant}
    (hkeys : ∀ entry ∈ table variants, entry.1.IsKey) (hproper : ∀ v ∈ variants, v.2.Proper) :
    Datum.AreProperEntries (table variants) := by
  induction variants with
  | nil => trivial
  | cons v variants ih =>
    obtain ⟨hkey, hrest⟩ := List.forall_mem_cons.mp hkeys
    obtain ⟨hvalue, hvalues⟩ := List.forall_mem_cons.mp hproper
    exact ⟨⟨hkey.proper _, hvalue⟩, ih hrest hvalues⟩

section Find

variable {variants : List Variant} {n : Nat} {ds : List Datum} {digest : Digest}

/-- Variants that agree with the same arguments are the same one. -/
theorem eq_of_agreeItems
    (hdistinct : variants.Pairwise fun v w => Datum.agreeItems v.1.values w.1.values = false)
    (hexact : ∀ v ∈ variants, Datum.AreExact v.1.values) {v w : Variant}
    (hv : v ∈ variants) (hw : w ∈ variants) (hvds : Datum.agreeItems v.1.values ds = true)
    (hwds : Datum.agreeItems w.1.values ds = true) : v = w := by
  by_contra hne
  have hsymm : Std.Symm fun v w : Variant => Datum.agreeItems v.1.values w.1.values = false :=
    ⟨fun v w h => (Datum.agreeItems_symm v.1.values w.1.values).trans h⟩
  have hnot := hdistinct.forall hv hw hne
  rw [Datum.agreeItems_of_common _ _ ds (hexact v hv) (hexact w hw) hvds hwds] at hnot
  exact Bool.noConfusion hnot

theorem agrees_key (hkeys : ∀ v ∈ variants, v.1.values.length = n) (hds : ds.length = n)
    {v : Variant} (hv : v ∈ variants) :
    (subjectDatum ds).agrees (subjectDatum v.1.values) = Datum.agreeItems v.1.values ds := by
  rw [agrees_subjectDatum (hds.trans (hkeys v hv).symm), Datum.agreeItems_symm]

theorem isExact_subjectDatum (hds : Datum.AreExact ds) : (subjectDatum ds).IsExact := by
  unfold subjectDatum
  split
  · exact hds.1
  · exact hds

/-- The arguments have the hash of the variant's key. -/
def HashedAlike (digest : Digest) (v : Variant) (ds : List Datum) : Prop :=
  digest (subjectDatum ds).hashWrites = digest (subjectDatum v.1.values).hashWrites

/-- The arguments are found at a key that they agree with if they have its hash, as they do if
doubles tell their whole numbers apart. -/
theorem finds_key (hkeys : ∀ v ∈ variants, v.1.values.length = n) (hds : ds.length = n)
    (hexact : ∀ v ∈ variants, Datum.AreExact v.1.values) {v : Variant} (hv : v ∈ variants)
    (hagrees : Datum.agreeItems v.1.values ds = true)
    (hhash : Datum.AreExact ds ∨ HashedAlike digest v ds) :
    (Datum.keying digest).finds (subjectDatum ds) (subjectDatum v.1.values) = true := by
  have hsubject := (agrees_key hkeys hds hv).trans hagrees
  rcases hhash with hdsExact | hhash
  · rw [Datum.keying_finds (isExact_subjectDatum hdsExact) (isExact_subjectDatum (hexact v hv))]
    exact hsubject
  · exact Bool.and_eq_true_iff.mpr ⟨hsubject, beq_iff_eq.mpr hhash⟩

/-- The entry of the variant at whose key the arguments are found is the first one that is found. -/
theorem find?_table (hkeys : ∀ v ∈ variants, v.1.values.length = n) (hds : ds.length = n)
    (hdistinct : variants.Pairwise fun v w => Datum.agreeItems v.1.values w.1.values = false)
    (hexact : ∀ v ∈ variants, Datum.AreExact v.1.values) {v : Variant} (hv : v ∈ variants)
    (hfinds : (Datum.keying digest).finds (subjectDatum ds) (subjectDatum v.1.values) = true) :
    (table variants).find? (fun entry => (Datum.keying digest).finds (subjectDatum ds) entry.1) =
      some (subjectDatum v.1.values, v.2) := by
  have hagrees {w : Variant} (hw : w ∈ variants)
      (hfinds : (Datum.keying digest).finds (subjectDatum ds) (subjectDatum w.1.values) = true) :
      Datum.agreeItems w.1.values ds = true :=
    (agrees_key hkeys hds hw).symm.trans (Bool.and_eq_true_iff.mp hfinds).1
  cases hfind : (table variants).find? fun entry =>
      (Datum.keying digest).finds (subjectDatum ds) entry.1 with
  | none =>
    exact absurd hfinds (List.find?_eq_none.mp hfind _ (List.mem_map.mpr ⟨v, hv, rfl⟩))
  | some entry =>
    have hfound := List.find?_some hfind
    obtain ⟨w, hw, rfl⟩ := List.mem_map.mp (List.mem_of_find?_eq_some hfind)
    obtain rfl := eq_of_agreeItems hdistinct hexact hv hw (hagrees hv hfinds) (hagrees hw hfound)
    rfl

theorem find?_table_eq_none (hkeys : ∀ v ∈ variants, v.1.values.length = n)
    (hds : ds.length = n) (hnone : ∀ v ∈ variants, Datum.agreeItems v.1.values ds = true →
      ¬HashedAlike digest v ds) :
    (table variants).find? (fun entry => (Datum.keying digest).finds (subjectDatum ds) entry.1) =
      none := by
  rw [table, List.find?_map, Option.map_eq_none_iff, List.find?_eq_none]
  intro v hv hfinds
  obtain ⟨hagrees, hhash⟩ := Bool.and_eq_true_iff.mp hfinds
  exact hnone v hv ((agrees_key hkeys hds hv).symm.trans hagrees) (beq_iff_eq.mp hhash)

end Find

/-- On a later heap the subject has the outline that its arguments had. -/
theorem outline_view_subject {m m' : Machine} (hsound : m.heap.Sound guard) (hadds : m.Adds m')
    {args : List Value} (hargs : ∀ arg ∈ args, arg.Within guard m.heap.extent) {v : Value}
    (hv : IsSubject m'.heap args v)
    (hdepth : args.length ≠ 1 → m.heap.containers < m'.heap.containers) :
    (m'.heap.view v).outline = (subjectDatum (args.map m.heap.view)).outline := by
  have htuples := m.heap.tuples_le_containers
  have harg {k : Nat} (hk : m.heap.containers ≤ k) {arg : Value} (h : arg ∈ args) :
      (m'.heap.viewWithin k arg).outline = (m.heap.view arg).outline :=
    Heap.outline_viewWithin hsound hadds.grows (hargs arg h) (Nat.le_refl _) htuples
      (Nat.le_trans htuples hk)
  cases hv with
  | single => exact harg hadds.heap.containers_le List.mem_cons_self
  | several r hlength hitems =>
    have hlt := hdepth hlength
    obtain ⟨k, hk⟩ := Nat.exists_eq_add_one_of_ne_zero (Nat.ne_zero_of_lt hlt)
    rw [Heap.view, hk, subjectDatum_of_length_ne (by simpa using hlength), Heap.viewWithin, hitems,
      Datum.outline, Datum.outline, Datum.outlines_eq_map, Datum.outlines_eq_map, List.map_map,
      List.map_map]
    congr 1
    exact List.map_congr_left fun arg h => harg (by omega) h

/-! ## The dictionary -/

/-- The entry in which a key is found is that in which its contents are. -/
theorem find?_of_showsEntry {h : Heap} {index : Value} {d : Datum}
    (hindex : (h.view index).outline = d.outline) {entries : List (Value × Value)}
    {ds : List (Datum × Datum)} (hentries : List.Forall₂ (h.ShowsEntry h.containers) entries ds)
    (hkeys : ∀ entry ∈ ds, entry.1.IsKey) :
    Option.Rel (h.ShowsEntry h.containers)
      (entries.find? fun entry => h.hashing.finds index entry.1)
      (ds.find? fun entry => (Datum.keying h.digest).finds d entry.1) := by
  induction hentries with
  | nil => exact .none
  | @cons entry e _ _ hentry _ ih =>
    have hfinds : h.hashing.finds index entry.1 = (Datum.keying h.digest).finds d e.1 := by
      rw [Heap.hashing, Heap.finds_eq_keying hentry.1 (hkeys e List.mem_cons_self),
        ← Datum.keying_finds_outline, show (h.viewWithin h.containers index).outline = _ from hindex,
        Datum.keying_finds_outline]
    rw [List.find?_cons, List.find?_cons, hfinds]
    cases (Datum.keying h.digest).finds d e.1 with
    | true => exact .some hentry
    | false => exact ih fun e' he' => hkeys e' (List.mem_cons_of_mem _ he')

/-- The outcome of a look-up on a machine that it does not change. -/
theorem subscript_of_settled {m : Machine} {dict index : Value} {r : Ref .dict}
    {ds : List (Datum × Datum)} (hdict : m.heap.Shows (m.heap.containers + 1) dict (.dict r ds))
    (hkeys : ∀ entry ∈ ds, entry.1.IsKey) {d : Datum}
    (hindex : (m.heap.view index).outline = d.outline) :
    if d.isHashable then
      match ds.find? fun entry => (Datum.keying m.heap.digest).finds d entry.1 with
      | some entry => ∃ value, Run.subscript dict index m = .ok value m ∧
          (m.heap.view value).contents = entry.2.contents
      | none => Run.subscript dict index m = .error (.raised (Fault.missingKey d.repr).exception) m
    else Run.subscript dict index m =
      .error (.raised (Fault.unhashable d.typeName).exception) m := by
  obtain ⟨ref, rfl, hentries⟩ := hdict.dict
  have hhashable : m.heap.isHashable index = d.isHashable := by
    rw [Heap.isHashable_eq, ← Datum.isHashable_outline, hindex, Datum.isHashable_outline]
  split
  · next hd =>
    have hcheck : Run.checkHashable index m = .ok () m := by
      rw [Run.checkHashable, bind_of_ok (getHeap_ok m), hhashable, hd]
      rfl
    have hfind := find?_of_showsEntry hindex (hentries _ rfl) hkeys
    rw [Array.find?_toList] at hfind
    have hrepr : (m.heap.view index).repr = d.repr := by
      rw [← Datum.repr_outline _ (m.heap.isHashable_eq index ▸ hhashable.trans hd), hindex,
        Datum.repr_outline d hd]
    unfold Run.subscript
    rw [bind_of_ok (getHeap_ok m)]
    dsimp only
    rw [bind_of_ok hcheck, Heap.valueAt?]
    cases hfound : ds.find? fun entry => (Datum.keying m.heap.digest).finds d entry.1 with
    | some entry =>
      rw [hfound] at hfind
      generalize (m.heap.dict ref).find? _ = found at hfind ⊢
      cases hfind with
      | some hentry => exact ⟨_, rfl, hentry.2⟩
    | none =>
      rw [hfound] at hfind
      generalize (m.heap.dict ref).find? _ = found at hfind ⊢
      cases hfind
      change (Run.view index >>= fun datum => Run.fault (.missingKey datum.repr)) m = _
      rw [bind_of_ok (view_ok index m), hrepr]
      rfl
  · next hd =>
    have hcheck : Run.checkHashable index m =
        .error (.raised (Fault.unhashable d.typeName).exception) m := by
      have htype : index.typeName = d.typeName := by
        rw [← Heap.typeName_viewWithin m.heap m.heap.containers index, ← Datum.typeName_outline,
          show (m.heap.viewWithin _ index).outline = _ from hindex, Datum.typeName_outline]
      rw [Run.checkHashable, bind_of_ok (getHeap_ok m), hhashable, if_neg hd, htype]
      rfl
    unfold Run.subscript
    rw [bind_of_ok (getHeap_ok m)]
    dsimp only
    rw [bind_of_error hcheck]

/-- The dictionary of a body is built. -/
theorem builds_table (s : Services) (scope : Scope) {params : List String}
    {variants : List Variant} {entries : List Entry}
    (hentries : variants.mapM (variantEntry function params) = .ok entries)
    (hkeys : ∀ v ∈ variants, v.1.values.length = params.length)
    (hproper : ∀ v ∈ variants, v.2.Proper)
    (hdistinct : variants.Pairwise fun v w => Datum.agreeItems v.1.values w.1.values = false)
    (m : Machine) :
    Builds m (eval s scope (.dict entries .synthetic)) fun h v =>
      h.Settled v (.dict ⟨0⟩ (table variants)) := by
  obtain ⟨htable, hliteral, rfl⟩ := variantEntries_eq_ok hentries hkeys
  have hspell : IsSpelling s scope .literal := fun _ _ => rfl
  have hbuilt := builds_stripEntries hspell (table variants) hliteral
    (areProperEntries_table htable hproper) [] (distinctKeys_table hkeys hdistinct htable) m #[]
    .nil
  rw [eval, ← evalEntries_bare]
  exact hbuilt.bind fun _ _ _ hfound => builds_newDict hfound ⟨0⟩

/-! ## Bodies -/

/-- A body that looks up, built from variants with distinct keys and run where the parameters are
bound to the arguments, returns the result of the variant whose key agrees with the arguments: a
value with the contents of that result.  Here doubles tell the whole numbers in keys apart, and those
in arguments too, or else the arguments have the hash of the key.  If all arguments can be keys and
no key with their hash agrees with them, it raises a `KeyError` with the written form of what was
looked up.  If some argument cannot be a key, it raises a `TypeError`.  It does nothing else: only
containers are added to the machine. -/
theorem dictionary_body_looks_up {params : List String} {variants : List Variant}
    {body : Syntax.Block} (hbody : lookupBody function params variants = .ok body)
    (hkeys : ∀ v ∈ variants, v.1.values.length = params.length)
    (hproper : ∀ v ∈ variants, v.2.Proper)
    (hdistinct : variants.Pairwise fun v w => Datum.agreeItems v.1.values w.1.values = false)
    (hexact : ∀ v ∈ variants, Datum.AreExact v.1.values) {m : Machine}
    (hsound : m.heap.Sound guard) {args : List Value} (hargs : Binds m.heap scope params args)
    (s : Services) :
    ∃ m', m.Adds m' ∧
      (∀ v ∈ variants, Datum.agreeItems v.1.values (args.map m.heap.view) = true →
        (Datum.AreExact (args.map m.heap.view) ∨
            HashedAlike m.heap.digest v (args.map m.heap.view)) →
          ∃ value, execBlock s scope body m = .ok (.returned value) m' ∧
            (m'.heap.view value).contents = v.2.contents) ∧
      ((∀ arg ∈ args, m.heap.isHashable arg = true) →
        (∀ v ∈ variants, Datum.agreeItems v.1.values (args.map m.heap.view) = true →
            ¬HashedAlike m.heap.digest v (args.map m.heap.view)) →
          execBlock s scope body m =
            .error (.raised ⟨.keyError, (subjectDatum (args.map m.heap.view)).repr⟩) m') ∧
      ∀ arg ∈ args, m.heap.isHashable arg = false →
        execBlock s scope body m = .error (.raised ⟨.typeError,
          "unhashable type: '" ++ (subjectDatum (args.map m.heap.view)).typeName ++ "'"⟩) m' := by
  obtain ⟨entries, hentries, hbody⟩ := exists_of_bind_eq_ok hbody
  cases hbody
  obtain ⟨dict, m₁, hdict, hadds, hsettled⟩ :=
    builds_table s scope hentries hkeys hproper hdistinct m
  obtain ⟨index, m₂, hindex, hadds', -, hsubject, hdepth⟩ :=
    eval_subject (s := s) (hargs.adds hadds)
  have hwithin : ∀ arg ∈ args, arg.Within guard m.heap.extent := fun arg harg => by
    obtain ⟨param, -, hparam⟩ := exists_of_forall₂ hargs.flip harg
    exact hsound.lookup_within hparam
  have houtline := outline_view_subject hsound (hadds.trans hadds') hwithin hsubject fun hlength => by
    have hle := hadds.heap.containers_le
    have hnew := hdepth hlength
    omega
  have hlookup := subscript_of_settled (hsettled m₂.heap hadds'.heap _
    (Nat.le_succ_of_le hadds'.heap.containers_le)) (variantEntries_eq_ok hentries hkeys).1 houtline
  rw [(hadds.trans hadds').heap.digest] at hlookup
  have hlength : (args.map m.heap.view).length = params.length := by
    rw [List.length_map, ← hargs.length_eq]
  have heval : eval s scope (.subscript (.dict entries .synthetic) (subject params) .synthetic) m =
      Run.subscript dict index m₂ := by
    rw [eval, bind_of_ok hdict, bind_of_ok hindex]
  refine ⟨m₂, hadds.trans hadds', fun v hv hv' hhash => ?_, fun hhashable hnone => ?_,
    fun arg harg hnot => ?_⟩
  · have hd := Datum.isHashable_of_agrees _ _ ((agrees_key hkeys hlength hv).trans hv')
    have hfinds := finds_key hkeys hlength hexact hv hv' hhash
    rw [if_pos hd, find?_table hkeys hlength hdistinct hexact hv hfinds] at hlookup
    obtain ⟨value, hrun, hvalue⟩ := hlookup
    exact ⟨value, execBlock_returning (heval.trans hrun), hvalue⟩
  · have hd : (subjectDatum (args.map m.heap.view)).isHashable = true := by
      rw [isHashable_subjectDatum, Datum.areHashable_eq_all, List.all_map, List.all_eq_true]
      exact fun arg harg => (m.heap.isHashable_eq arg).symm.trans (hhashable arg harg)
    rw [if_pos hd, find?_table_eq_none hkeys hlength hnone] at hlookup
    exact execBlock_returning_of_error (heval.trans hlookup)
  · have hd : ¬(subjectDatum (args.map m.heap.view)).isHashable = true := by
      rw [isHashable_subjectDatum, Datum.areHashable_eq_all, List.all_map, List.all_eq_true]
      intro hall
      have harg' := hall arg harg
      rw [Function.comp_apply, ← Heap.isHashable_eq, hnot] at harg'
      exact Bool.noConfusion harg'
    rw [if_neg hd] at hlookup
    exact execBlock_returning_of_error (heval.trans hlookup)

/-- The tuple that is a key is another one than the argument, with the same item. -/
theorem dictionary_body_looks_up_pair : ∃ body m' value,
    lookupBody "f" ["x", "y"]
        [(.tuple [.tuple ⟨7⟩ [.constant (.int 2)], .constant (.bool true)], .constant (.int 5)),
          (.tuple [.tuple ⟨7⟩ [.constant (.int 1)], .constant (.bool true)], .constant (.int 4))] =
      .ok body ∧
    execBlock (services 0 0) [⟨0⟩] body pairMachine = .ok (.returned value) m' ∧
      (m'.heap.view value).contents = .constant (.int 4) := by
  have hbody : lookupBody "f" ["x", "y"]
      [(.tuple [.tuple ⟨7⟩ [.constant (.int 2)], .constant (.bool true)], .constant (.int 5)),
        (.tuple [.tuple ⟨7⟩ [.constant (.int 1)], .constant (.bool true)], .constant (.int 4))] =
      .ok _ := rfl
  have hargs : Binds pairMachine.heap [⟨0⟩] ["x", "y"] [.tuple ⟨0⟩, .bool true] :=
    .cons rfl (.cons rfl .nil)
  have hexact {n : Int64} (hn : n.toInt.natAbs ≤ 2 ^ 53) : Datum.AreExact
      [.tuple ⟨7⟩ [.constant (.int n)], .constant (.bool true)] := ⟨⟨hn, trivial⟩, trivial, trivial⟩
  obtain ⟨m', -, hfound, -⟩ := dictionary_body_looks_up hbody (by simp [ArgKey.values])
    (by simp [Datum.Proper]) (List.pairwise_pair.mpr rfl)
    (List.forall_mem_cons.mpr ⟨hexact (by decide),
      List.forall_mem_singleton.mpr (hexact (by decide))⟩) sound_pairMachine hargs (services 0 0)
  have hargsExact : Datum.AreExact ([.tuple ⟨0⟩, .bool true].map pairMachine.heap.view) :=
    ⟨⟨show (1 : Int64).toInt.natAbs ≤ 2 ^ 53 by decide, trivial⟩, trivial, trivial⟩
  obtain ⟨value, hrun, hvalue⟩ :=
    hfound _ (List.mem_cons_of_mem _ List.mem_cons_self) rfl (.inl hargsExact)
  exact ⟨_, m', value, hbody, hrun, hvalue⟩

end Rewriting

end StagedScript
