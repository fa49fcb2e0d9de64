import StagedScript.Compile.Compilation
import StagedScript.Proofs.Rewriting.Success
import StagedScript.Proofs.Staging.Origin

/-!
# Whose results are inlined

The body of a compiled function is built from the entries of the table under
its name and from nothing else.  All of them come from calls of one function,
the one that was registered last under this name.
-/

namespace StagedScript.Compile

open Rewriting (Plan Replaces fillIn reachedIn rewriteMarked withoutMarkers)
open Staging (Results Trace trace? precompute)
open Syntax (Block Definition FunctionHeader definitionsIn)

def Results.ofFunction {α : Type} (results : Results α) (name : String) : Results α :=
  results.filter (·.1.function = name)

theorem variants_ofFunction {α : Type} (results : Results α) (name : String) :
    (Results.ofFunction results name).variants name = results.variants name := by
  unfold Results.variants Results.ofFunction
  rw [List.filterMap_filter]
  refine List.filterMap_congr fun ⟨key, value⟩ _ => ?_
  cases key with
  | whole function => simp
  | variant function args =>
    by_cases hname : function = name <;> simp [Staging.ResultKey.function, hname]

theorem whole?_ofFunction {α : Type} (results : Results α) (name : String) :
    (Results.ofFunction results name).whole? name = results.whole? name := by
  unfold Results.whole? Results.ofFunction
  induction results with
  | nil => rfl
  | cons entry results ih =>
    obtain ⟨key, value⟩ := entry
    rw [List.filter_cons]
    split
    · rw [List.findSome?_cons, List.findSome?_cons, ih]
    · next hother =>
      rw [ih, List.findSome?_cons]
      cases key with
      | whole function =>
        have hne : function ≠ name := fun heq => hother (decide_eq_true heq)
        simp [hne]
      | variant function args => rfl

/-- A function is filled in with the entries under its name only. -/
theorem rewriteMarked_ofFunction (plan : Plan) (header : FunctionHeader) (body : Block) :
    rewriteMarked plan header body =
      rewriteMarked { plan with results := Results.ofFunction plan.results header.name } header
        body := by
  have hfillIn : fillIn plan header =
      fillIn { plan with results := Results.ofFunction plan.results header.name } header := by
    unfold fillIn
    rw [variants_ofFunction, whole?_ofFunction]
  unfold rewriteMarked
  rw [hfillIn]

/-! ## Compilation -/

theorem SourceFile.read_text {files : FileTree} {path : String} {standalone : Bool}
    {source : SourceFile} (h : SourceFile.read files path standalone = .ok source) :
    files.read path = .ok source.text := by
  unfold SourceFile.read at h
  split at h
  · cases h
  · next text hread =>
    rw [hread]
    split at h
    · cases h
    · split at h
      · cases h
        rfl
      · dsimp only at h
        split at h
        · cases h
          rfl
        · cases h
          rfl

/-- The text and the names of a compilation are those of the module rewritten with its results, in
which each registered definition has its documentation and what was made from these results. -/
structure Compilation.Writes (c : Compilation) (options : Options) (digest : Digest)
    (body : Block) (r : Rewriting.Rewritten) : Prop where
  rewritten_eq : Rewriting.rewriteModule c.results options.strategy body digest = .ok r
  text : c.text = Syntax.printModule options.layout r.body
  functions : c.rewritten = r.functions
  replaced : List.Forall₂
    (Replaces ⟨.ofBlock body, c.results, options.strategy, digest⟩)
    (reachedIn (.ofBlock body) body) (definitionsIn r.body)

variable {files : FileTree} {options : Options} {path : String} {digest : Digest}
  {c : Compilation} {lines : List String}

/-- A compilation that succeeds has evaluated the file ahead of time and written the rewritten
module. -/
theorem precompute_of_compile (h : compile files options path digest = (.ok c, lines)) :
    ∃ source body table m r, SourceFile.read files path options.isAbsolute = .ok source ∧
      Syntax.readModule source.text = .ok body ∧
      precompute source.spec source.text (.ofPaths files source.searchPaths digest) =
        .ok (.ok table) m ∧
      c.results = Results.view m.heap table ∧ c.Writes options digest body r := by
  unfold compile at h
  split at h
  · cases h
  · next source hread =>
    unfold evaluated Staging.attempt at h
    dsimp only at h
    cases hrun : precompute source.spec source.text
        (.ofPaths files source.searchPaths digest) with
    | error e m =>
      have hrun' : (precompute source.spec source.text).run
          (.ofPaths files source.searchPaths digest) = .error e m := hrun
      rw [hrun'] at h
      cases e <;> cases h
    | ok result m =>
      have hrun' : (precompute source.spec source.text).run
          (.ofPaths files source.searchPaths digest) = .ok result m := hrun
      rw [hrun'] at h
      cases result with
      | error failure => cases h
      | ok table =>
        obtain ⟨hc, -⟩ := Prod.mk.inj h
        change rewritten options source (Results.view m.heap table) digest = .ok c at hc
        unfold rewritten at hc
        split at hc
        · cases hc
        · next body hbody =>
          have hends := Rewriting.ends_rewriteModule (Results.view m.heap table)
            options.strategy body digest
          cases hrewrite : Rewriting.rewriteModule (Results.view m.heap table)
              options.strategy body digest with
          | error failure =>
            rw [hrewrite] at hc
            cases hc
          | ok r =>
            rw [hrewrite] at hc hends
            cases hc
            exact ⟨source, body, table, m, r, hread, hbody, hrun, rfl, hrewrite, rfl, rfl,
              hends.2.2⟩

/-- What an entry of the results under a name tells: its key is that of a call `first`, and its
value is what the call at place `i` returned, which is the same one or was found at that key.
This call was made to the function `e` that is registered under the name. -/
structure Answers (t : Trace) (name : String) (entry : Staging.ResultKey Datum × Datum)
    (e : Entity) (i : Nat) (first call : Staging.Call) (before : Machine) : Prop where
  registered : ∃ r ∈ t.registered, r.name = name ∧ r.callable = .entity e
  made : t.Made i call (.entity e) before
  named : call.key.function = name
  first_mem : first ∈ t.calls
  key_eq : entry.1 = first.key.map t.heap.view
  found : call = first ∨ call.hashing.finds call.key first.key = true
  value_eq : entry.2 = t.heap.view call.value

/-- Every entry of the table holds what a call returned that was made to the function registered
last under the name in the entry's key. -/
theorem answers_of_mem_results {source : SourceFile} {table : Results Value} {m : Machine}
    (hread : SourceFile.read files path options.isAbsolute = .ok source)
    (hrun : precompute source.spec source.text (.ofPaths files source.searchPaths digest) =
      .ok (.ok table) m) :
    ∃ t, trace? source.spec source.text (.ofPaths files source.searchPaths digest) = some t ∧
      (t.registered.map (·.name)).Nodup ∧
      ∀ entry ∈ Results.view m.heap table, ∃ e i first call before,
        Answers t entry.1.function entry e i first call before ∧
        ((∃ f, e.builtin? = some f ∧ f.name = entry.1.function) ∨
          ∃ place d, files.DefinesAt place d ∧ d.1.name = entry.1.function ∧
            e.MadeBy before.heap d) := by
  have hsound := Staging.sound_ofPaths files source.searchPaths digest
  obtain ⟨t, htrace, ht, -, hheap, rfl⟩ := Staging.trace_of_precompute hsound hrun
  refine ⟨t, htrace, ht.names, ?_⟩
  intro entry hentry
  obtain ⟨⟨key, value⟩, hmem, rfl⟩ := List.mem_map.mp hentry
  obtain ⟨first, hfirst, call, hcall, rfl, rfl, hfound⟩ := Staging.mem_recorded hmem
  obtain ⟨i, hi⟩ := List.mem_iff_getElem?.mp hcall
  obtain ⟨-, last, hperform⟩ := Staging.trace?_eq_some htrace
  obtain ⟨callable, before, after, hplanned, hbefore, hreturned, hafter⟩ :=
    Staging.perform_take hperform hi
  obtain ⟨r, hr, rfl, hname⟩ :=
    Staging.registered_of_mem_plan (List.mem_of_getElem? hplanned)
  obtain ⟨e, hcallable, hmade⟩ := Staging.builtin_or_madeBy_of_trace hsound rfl
    (SourceFile.read_text hread) htrace hr
  rw [hcallable] at hreturned
  -- What made the function is still known when the call begins.
  have hgrows : t.ready.heap.Grows Staging.noGuard before.heap :=
    (Staging.sound_of_perform ht.ready hbefore fun p hp =>
      ht.registered.planned ht.ready p (List.mem_of_mem_take hp)).2.1.heap
  have hfunction : call.key.function = first.key.function := by
    rcases hfound with rfl | hfinds
    · rfl
    · exact Staging.ResultKey.function_eq_of_equal (Staging.ResultKey.equal_of_finds hfinds)
  have hkey : (first.key.map m.heap.view).function = first.key.function := by
    cases first.key <;> rfl
  have hrname : r.name = (first.key.map m.heap.view).function :=
    hname.trans (hfunction.trans hkey.symm)
  rw [hrname] at hmade
  refine ⟨e, i, first, call, before,
    ⟨⟨r, hr, hrname, hcallable⟩, ⟨hi, hbefore, after, hreturned, hafter⟩,
      hfunction.trans hkey.symm, hfirst, ?_, hfound, ?_⟩, ?_⟩
  · rw [hheap]
  · rw [hheap]
  · exact hmade.imp_right fun ⟨d, ⟨place, hd⟩, hdname, he⟩ =>
      ⟨place, d, hd, hdname, he.mono hgrows⟩

/-- The text of a compilation is that of the module rewritten with its results.  A definition whose
body is replaced is filled in with the entries under its name only.  Each of them holds what a
call returned that was made to the one function registered last under this name, and its key is
that of this call or of an earlier one at which the call was found.  The function is built in or
was made by a definition of this name at some place of the files.  If no other definition and no
built-in function has the name, then it was made by this very definition. -/
theorem inlined_from_last_registered (h : compile files options path digest = (.ok c, lines)) :
    ∃ source body place t r, SourceFile.read files path options.isAbsolute = .ok source ∧
      Syntax.readModule source.text = .ok body ∧
      files.place path = .ok place ∧ (∀ d ∈ definitionsIn body, files.DefinesAt place d) ∧
      trace? source.spec source.text (.ofPaths files source.searchPaths digest) = some t ∧
      (t.registered.map (·.name)).Nodup ∧
      c.Writes options digest body r ∧
      ∀ d ∈ definitionsIn body,
        (∀ plan : Plan, plan.results = c.results →
          rewriteMarked plan (withoutMarkers plan.markers d.1) d.2 =
            rewriteMarked { plan with results := Results.ofFunction c.results d.1.name }
              (withoutMarkers plan.markers d.1) d.2) ∧
        ∀ entry ∈ Results.ofFunction c.results d.1.name, ∃ e i first call before,
          Answers t d.1.name entry e i first call before ∧
          ((∃ f, e.builtin? = some f ∧ f.name = d.1.name) ∨
            ∃ place' d', files.DefinesAt place' d' ∧ d'.1.name = d.1.name ∧
              e.MadeBy before.heap d') ∧
          ((∀ f : Builtin, f.name ≠ d.1.name) →
            (∀ place' d', files.DefinesAt place' d' → d'.1.name = d.1.name → d' = d) →
            e.MadeBy before.heap d) := by
  obtain ⟨source, body, table, m, r, hread, hbody, hrun, hresults, hwrites⟩ :=
    precompute_of_compile h
  obtain ⟨place, hplace, hdefines⟩ :=
    FileTree.definesAt_of_read (SourceFile.read_text hread) hbody
  obtain ⟨t, htrace, hnames, hentries⟩ := answers_of_mem_results hread hrun
  refine ⟨source, body, place, t, r, hread, hbody, hplace, hdefines, htrace, hnames, hwrites,
    fun d _ => ⟨?_, ?_⟩⟩
  · intro plan hplan
    have hname : (withoutMarkers plan.markers d.1).name = d.1.name := rfl
    rw [rewriteMarked_ofFunction, hname, hplan]
  · intro entry hentry
    obtain ⟨hmem, hfunction⟩ := List.mem_filter.mp hentry
    have hfunction : entry.1.function = d.1.name := of_decide_eq_true hfunction
    obtain ⟨e, i, first, call, before, hanswers, horigin⟩ := hentries entry (hresults ▸ hmem)
    rw [hfunction] at hanswers horigin
    refine ⟨e, i, first, call, before, hanswers, horigin, ?_⟩
    intro hbuiltin hunique
    rcases horigin with ⟨f, -, hf⟩ | ⟨place', d', hd', hd'name, he⟩
    · exact absurd hf (hbuiltin f)
    · exact hunique place' d' hd' hd'name ▸ he

/-! ## Two definitions with one name -/

/-- A file that marks a function and then imports a module that marks another one of the same
name. -/
def namesakes : FileTree where
  entries := [
    (["main.ath"], .file ("from comptime import comptime\n@comptime(1)\ndef f(x):\n"
      ++ "    return x\nimport lib\n").toUTF8),
    (["lib.ath"], .file ("from comptime import comptime\n@comptime(1)\ndef f(y):\n"
      ++ "    return y + 10\n").toUTF8)]

/-- The names of the parameters of the function that an entity leads to. -/
def parameters? (h : Heap) : Entity → Option (List String)
  | .function code _ => (h.function? code).map fun f => f.header.params.map (·.name)
  | .skipped inner => parameters? h inner
  | _ => none

theorem parameters?_of_madeBy {h : Heap} {d : Definition} {e : Entity} (he : e.MadeBy h d) :
    parameters? h e = some (d.1.params.map (·.name)) := by
  induction e with
  | function code name =>
    obtain ⟨f, hf, rfl⟩ := he
    simp [parameters?, hf]
  | skipped inner ih => exact ih he
  | _ => exact he.elim

/-- A definition with a new body has entries, but what is registered under its name has other
parameters. -/
def answeredByOther (c : Compilation) (body : Block) (t : Trace) : Bool :=
  (definitionsIn body).any fun d =>
    c.rewritten.contains d.1.name && !(Results.ofFunction c.results d.1.name).isEmpty &&
      t.registered.all fun r =>
        r.name != d.1.name ||
          match r.callable with
          | .entity e => parameters? t.ready.heap e != some (d.1.params.map (·.name))
          | _ => true

/-- A file for which the results of another function are inlined into a definition. -/
def inlinesOther (files : FileTree) (path : String) : Bool :=
  match compile files {} path, SourceFile.read files path false with
  | (.ok c, _), .ok source =>
    match Syntax.readModule source.text,
      trace? source.spec source.text (.ofPaths files source.searchPaths) with
    | .ok body, some t => answeredByOther c body t
    | _, _ => false
  | _, _ => false

theorem runs_of_inlinesOther {files : FileTree} {path : String}
    (h : inlinesOther files path = true) :
    ∃ c lines source body t, compile files {} path = (.ok c, lines) ∧
      SourceFile.read files path false = .ok source ∧ Syntax.readModule source.text = .ok body ∧
      trace? source.spec source.text (.ofPaths files source.searchPaths) = some t ∧
      answeredByOther c body t = true := by
  unfold inlinesOther at h
  split at h
  · next c lines source hcompile hread =>
    split at h
    · next body t hbody htrace =>
      exact ⟨c, lines, source, body, t, hcompile, hread, hbody, htrace, h⟩
    · cases h
  · cases h

theorem namesakes_inlinesOther : inlinesOther namesakes "main.ath" = true := by decide +kernel

theorem inlined_from_last_registered_namesakes :
    ∃ c lines, compile namesakes {} "main.ath" = (.ok c, lines) ∧
      ∃ source body t, SourceFile.read namesakes "main.ath" false = .ok source ∧
        Syntax.readModule source.text = .ok body ∧
        trace? source.spec source.text (.ofPaths namesakes source.searchPaths) = some t ∧
        ∀ d ∈ definitionsIn body, ∀ entry ∈ Results.ofFunction c.results d.1.name,
          ∃ e i first call before, Answers t d.1.name entry e i first call before := by
  obtain ⟨c, lines, _, _, _, hcompile, -⟩ := runs_of_inlinesOther namesakes_inlinesOther
  obtain ⟨source, body, -, t, -, hread, hbody, -, -, htrace, -, -, hall⟩ :=
    inlined_from_last_registered hcompile
  refine ⟨c, lines, hcompile, source, body, t, hread, hbody, htrace, fun d hd entry hentry => ?_⟩
  obtain ⟨e, i, first, call, before, hanswers, -⟩ := (hall d hd).2 entry hentry
  exact ⟨e, i, first, call, before, hanswers⟩

/-- The function that is called for the results inlined into a definition is not the one that the
definition made. -/
theorem inlined_from_namesake :
    ∃ c lines source body t d, compile namesakes {} "main.ath" = (.ok c, lines) ∧
      SourceFile.read namesakes "main.ath" false = .ok source ∧
      Syntax.readModule source.text = .ok body ∧
      trace? source.spec source.text (.ofPaths namesakes source.searchPaths) = some t ∧
      d ∈ definitionsIn body ∧ d.1.name ∈ c.rewritten ∧
      ∃ entry ∈ Results.ofFunction c.results d.1.name, ∃ e i first call before,
        Answers t d.1.name entry e i first call before ∧ ¬e.MadeBy t.ready.heap d := by
  obtain ⟨c, lines, source, body, t, hcompile, hread, hbody, htrace, hother⟩ :=
    runs_of_inlinesOther namesakes_inlinesOther
  obtain ⟨d, hd, hother⟩ := List.any_eq_true.mp hother
  simp only [Bool.and_eq_true, List.contains_iff_mem, Bool.not_eq_true', List.all_eq_true,
    Bool.or_eq_true, bne_iff_ne] at hother
  obtain ⟨⟨hrewritten, hentries⟩, hregistered⟩ := hother
  obtain ⟨entry, hentry⟩ := List.exists_mem_of_ne_nil _ (by simpa using hentries)
  obtain ⟨source', _, table, m, _, hread', -, hrun, hresults, -⟩ := precompute_of_compile hcompile
  obtain rfl : source = source' := Except.ok.inj (hread.symm.trans hread')
  obtain ⟨t', htrace', -, hall⟩ := answers_of_mem_results hread' hrun
  obtain rfl : t = t' := Option.some.inj (htrace.symm.trans htrace')
  obtain ⟨hmem, hfunction⟩ := List.mem_filter.mp hentry
  have hfunction : entry.1.function = d.1.name := of_decide_eq_true hfunction
  obtain ⟨e, i, first, call, before, hanswers, -⟩ := hall entry (hresults ▸ hmem)
  rw [hfunction] at hanswers
  obtain ⟨r, hr, hrname, hcallable⟩ := hanswers.registered
  have hparams := (hregistered r hr).resolve_left (· hrname)
  rw [hcallable] at hparams
  refine ⟨c, lines, source, body, t, d, hcompile, hread, hbody, htrace, hd, hrewritten, entry,
    hentry, e, i, first, call, before, hanswers, ?_⟩
  exact fun he => (bne_iff_ne.mp hparams) (parameters?_of_madeBy he)

end StagedScript.Compile
