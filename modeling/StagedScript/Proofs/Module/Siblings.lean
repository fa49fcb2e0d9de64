import StagedScript.Compile.Source
import StagedScript.Proofs.Machine.Loading
import StagedScript.Proofs.Module.Places
import StagedScript.Proofs.Syntax.Scanning

/-!
# Siblings of package members

The name of a package member is made from the name of its directory, and the search
path is what that directory lies in.  So a relative import leads back to the
directory, unless its name has a dot: a dotted name is looked for in a directory
inside of another one.
-/

namespace StagedScript

open Evaluation
open StagedScript.Path (IsPart ofPlace)

namespace Compile.SourceFile

variable {files : FileTree} {path package : String} {f : SourceFile}

theorem packageOf?_of_read (hread : SourceFile.read files path false = .ok f)
    (hpackage : f.package = some package) :
    ∃ around, packageOf? files (directory path) = some (package, around) ∧
      f.searchPaths = [around] := by
  rw [SourceFile.read] at hread
  cases htext : files.read path with
  | error e =>
    rw [htext] at hread
    exact nomatch hread
  | ok text =>
    rw [htext] at hread
    cases hstem : Path.stem? path with
    | none =>
      rw [hstem] at hread
      exact nomatch hread
    | some stem =>
      rw [hstem] at hread
      cases hfound : packageOf? files (directory path) with
      | none =>
        simp only [Bool.false_eq_true, if_false, hfound] at hread
        obtain rfl := Except.ok.inj hread
        exact nomatch hpackage
      | some found =>
        simp only [Bool.false_eq_true, if_false, hfound] at hread
        obtain rfl := Except.ok.inj hread
        obtain rfl := Option.some.inj hpackage
        exact ⟨found.2, rfl, rfl⟩

/-- A package has the name of its directory, and what is around it is what the directory lies
in. -/
theorem place_of_packageOf? {around : String} {place : List String} {node : FileNode}
    (hreached : files.Reached place) (hfind : files.find path = .ok (place, node))
    (hfound : packageOf? files path = some (package, around)) :
    ∃ above, place = above ++ [package] ∧ around = ofPlace above := by
  rw [packageOf?] at hfound
  split at hfound
  · exact nomatch hfound
  · have hcanonical : files.canonical? path = some (ofPlace place) := by
      rw [FileTree.canonical?, hfind]
      rfl
    rw [hcanonical, Option.bind_eq_bind, Option.bind_some] at hfound
    rcases List.eq_nil_or_concat' place with rfl | ⟨above, last, rfl⟩
    · exact nomatch hfound
    · have hlast := hreached.parts last (List.mem_append_right above List.mem_cons_self)
      rw [Path.fileName?_ofPlace hlast, Path.parent?_ofPlace hreached.above.1.parts hlast] at hfound
      obtain ⟨rfl, rfl⟩ := Prod.mk.inj (Option.some.inj hfound)
      exact ⟨above, rfl, rfl⟩

end Compile.SourceFile

section Names

variable {package x : String}

/-- The characters of a name are neither slashes nor dots. -/
theorem isPart_of_isName (hx : Syntax.isName x = true) : IsPart x ∧ '.' ∉ x.toList := by
  simp only [Syntax.isName, Bool.and_eq_true, List.all_eq_true] at hx
  obtain ⟨⟨hstart, hparts⟩, -⟩ := hx
  have hnone (c : Char) (hc : Text.isNamePart c = false) : c ∉ x.toList := by
    intro hmem
    rw [hparts c hmem] at hc
    exact Bool.noConfusion hc
  have hdot := hnone '.' (by decide)
  refine ⟨⟨?_, ?_, ?_, hnone '/' (by decide)⟩, hdot⟩
  · rintro rfl
    exact Bool.noConfusion hstart
  · rintro rfl
    exact hdot List.mem_cons_self
  · rintro rfl
    exact hdot List.mem_cons_self

theorem isPart_fileName (hx : IsPart x) : IsPart (x ++ "." ++ sourceExtension) where
  ne_empty h := hx.ne_empty (String.append_eq_empty_iff.mp (String.append_eq_empty_iff.mp h).1).1
  ne_dot h := by
    have hlength := congrArg String.length h
    rw [String.length_append, String.length_append] at hlength
    change x.length + 1 + 3 = 1 at hlength
    omega
  ne_dots h := by
    have hlength := congrArg String.length h
    rw [String.length_append, String.length_append] at hlength
    change x.length + 1 + 3 = 2 at hlength
    omega
  no_slash := by
    simp [hx.no_slash, sourceExtension]

theorem isPart_packageFile : IsPart packageFile where
  ne_empty := by decide
  ne_dot := by decide
  ne_dots := by decide
  no_slash := by decide

theorem splitAt_dot_of_notMem (hpackage : '.' ∉ package.toList) :
    Text.splitAt "." package = [package] := by
  have hdot : ".".toList = ['.'] := rfl
  rw [Text.splitAt, hdot, Text.pieces_of_notMem hpackage, List.map_cons, List.map_nil,
    String.ofList_toList]

/-- The name of a sibling is split between its package and its own name. -/
theorem splitAt_dot_sibling (hpackage : '.' ∉ package.toList) (hx : '.' ∉ x.toList) :
    Text.splitAt "." (package ++ "." ++ x) = [package, x] := by
  have hdot : ".".toList = ['.'] := rfl
  rw [Text.splitAt, String.toList_append, String.toList_append, hdot, List.append_assoc,
    List.singleton_append, Text.pieces_append hpackage, Text.pieces_of_notMem hx]
  simp only [List.map_cons, List.map_nil, String.ofList_toList]

/-- A relative name of one level is put behind the package. -/
theorem resolveName_sibling (hne : package ≠ "") (hpackage : '.' ∉ package.toList) (x : String) :
    resolveName (some package) 1 (some x) = .ok (package ++ "." ++ x) := by
  rw [resolveName, if_neg Nat.one_ne_zero]
  · simp [splitAt_dot_of_notMem hpackage]
  · exact hne

end Names

section Files

variable {files : FileTree} {above : List String} {package x : String} {bytes : ByteArray}

/-- The name of a sibling leads to its file, if nothing else of that name is there. -/
theorem findBelow?_sibling (hreached : files.Reached (above ++ [package]))
    (hdirectory : files.isDirectoryAt (above ++ [package]) = true)
    (hdot : '.' ∉ package.toList) (hx : IsPart x) (hxdot : '.' ∉ x.toList)
    (hfile : files.node? (above ++ [package] ++ [x ++ "." ++ sourceExtension]) = some (.file bytes))
    (hother : files.isDirectoryAt (above ++ [package] ++ [x]) = false) :
    ∃ sibling, ModuleCache.findBelow? files (ofPlace above) (package ++ "." ++ x) =
        some (.file sibling) ∧
      files.find sibling =
        .ok (above ++ [package] ++ [x ++ "." ++ sourceExtension], .file bytes) := by
  have habove := hreached.above.1.parts
  have hpackage := hreached.parts package (List.mem_append_right above List.mem_cons_self)
  have hinner : ∀ p ∈ above ++ [package] ++ [x], IsPart p :=
    (hreached.append hdirectory hx).parts
  have hname : Path.join (ofPlace above)
      ((Text.splitAt "." (package ++ "." ++ x)).foldl Path.join "") =
        ofPlace (above ++ [package] ++ [x]) := by
    rw [splitAt_dot_sibling hdot hxdot, List.append_assoc]
    exact Path.join_parts habove hpackage hx
  have hsibling := (hreached.append hdirectory (isPart_fileName hx)).find_ofPlace
    (List.append_ne_nil_of_right_ne_nil _ (List.cons_ne_nil _ _)) hfile
  refine ⟨_, ?_, hsibling⟩
  rw [ModuleCache.findBelow?]
  simp only [hname, Path.join_part hinner isPart_packageFile,
    Path.withExtension_ofPlace hx hxdot, FileTree.isFile_inside hinner isPart_packageFile hother]
  rw [if_neg Bool.false_ne_true, FileTree.isFile, hsibling]
  rfl

end Files

section Importing

variable {s : Services} {m m₁ : Machine} {holder : LoadedModule} {package x sibling : String}

/-- A module of a package that is not loaded yet is loaded from its file after the package. -/
theorem loadModule_sibling (hx : '.' ∉ x.toList)
    (hnew : m.modules.get? (package ++ "." ++ x) = none) (hload : s.load package m = .ok holder m₁)
    (hfind : m₁.modules.find? m₁.files (package ++ "." ++ x) = some (.file sibling)) :
    ∃ k, loadModule s (package ++ "." ++ x) m =
      (loadFile s sibling ⟨package ++ "." ++ x, some package, some sibling⟩ >>= k) m₁ := by
  have hsplit : splitName? (package ++ "." ++ x) = some (package, x) :=
    splitName?_eq_some_iff.mpr ⟨rfl, hx⟩
  have hbuiltin : Builtin.module? (package ++ "." ++ x) = none := by
    cases hmodule : Builtin.module? (package ++ "." ++ x) with
    | none => rfl
    | some globals =>
      rw [Builtin.splitName?_of_module? hmodule] at hsplit
      exact nomatch hsplit
  have hget (m : Machine) : (get : Run Machine) m = .ok m m := rfl
  rw [loadModule, Run.bind_of_ok (hget m)]
  simp only [hnew, hbuiltin]
  rw [findAndLoad]
  simp only [hsplit]
  rw [Run.bind_of_ok hload, Run.bind_of_ok (hget m₁), hfind]
  exact ⟨_, rfl⟩

theorem currentPackage_eq {scope : Scope}
    (hscope : m.heap.lookup? scope "__package__" = some (.string package)) :
    currentPackage scope m = .ok (some package) m := by
  rw [currentPackage, Run.bind_of_ok (Run.getHeap_ok m), hscope]
  rfl

/-- A file that was read as a member of a package without a dot in its name imports its siblings
from their files.  Whatever ran before on these files and search paths: if the package itself is
loaded, the import goes on with the file beside the one that was read. -/
theorem member_imports_sibling {direct : String → Prop} {files : FileTree} {path : String}
    {f : Compile.SourceFile} {place : List String} {bytes : ByteArray}
    (hhome : files.Reached files.home) (hread : Compile.SourceFile.read files path false = .ok f)
    (hpackage : f.package = some package) (hdot : '.' ∉ package.toList)
    (hdirectory : files.find (Compile.SourceFile.directory path) = .ok (place, .directory))
    (hx : Syntax.isName x = true)
    (hfile : files.node? (place ++ [x ++ "." ++ sourceExtension]) = some (.file bytes))
    (hother : files.isDirectoryAt (place ++ [x]) = false) :
    ∃ sibling, files.find sibling = .ok (place ++ [x ++ "." ++ sourceExtension], .file bytes) ∧
      ∀ (m : Machine) (scope : Scope), m.Tidy direct → m.files = files →
        m.modules.searchPaths = (ModuleCache.ofPaths f.searchPaths).searchPaths →
        m.heap.lookup? scope "__package__" = some (.string package) →
        m.modules.get? (package ++ "." ++ x) = none →
        ∀ (rounds n : Nat) (holder : LoadedModule) (m₁ : Machine),
          (services rounds n).load package m = .ok holder m₁ → ∀ names span, ∃ k,
            exec (services rounds (n + 1)) scope (.importNames 1 (some x) names span) m =
              (loadFile (services rounds n) sibling
                ⟨package ++ "." ++ x, some package, some sibling⟩ >>= k) m₁ := by
  obtain ⟨around, hfound, hpaths⟩ := Compile.SourceFile.packageOf?_of_read hread hpackage
  have hreached := FileTree.Reached.of_find hhome hdirectory
  obtain ⟨above, rfl, rfl⟩ := Compile.SourceFile.place_of_packageOf? hreached hdirectory hfound
  have hnode : files.isDirectoryAt (above ++ [package]) = true := by
    rw [FileTree.isDirectoryAt, (FileTree.find_eq_ok.mp hdirectory).2]
  obtain ⟨hpart, hxdot⟩ := isPart_of_isName hx
  obtain ⟨sibling, hbelow, hsibling⟩ :=
    findBelow?_sibling hreached hnode hdot hpart hxdot hfile hother
  refine ⟨sibling, hsibling, ?_⟩
  intro m scope hm hfiles hsearch hscope hnew rounds n holder m₁ hload names span
  have hloads := (services_loadTidily direct rounds n).load package m hm
  rw [LoadsFrom, Ends, hload] at hloads
  have hfind : m₁.modules.find? m₁.files (package ++ "." ++ x) = some (.file sibling) := by
    rw [ModuleCache.find?, hloads.1.files, hloads.1.paths, hfiles, hsearch, hpaths]
    change (List.findSome? _ [ofPlace above]) = _
    rw [List.findSome?_cons, hbelow]
  have hresolve := resolveName_sibling
    (hreached.parts package (List.mem_append_right above List.mem_cons_self)).ne_empty hdot x
  obtain ⟨k, hk⟩ := loadModule_sibling hxdot hnew hload hfind
  have hrun (next : LoadedModule → Run Flow) :
      ((services rounds (n + 1)).load (package ++ "." ++ x) >>= next) m =
        (loadFile (services rounds n) sibling ⟨package ++ "." ++ x, some package, some sibling⟩ >>=
          fun loaded => k loaded >>= next) m₁ := by
    rw [← bind_assoc]
    change EStateM.bind (loadModule (services rounds n) _) next m = EStateM.bind _ next m₁
    rw [EStateM.bind, EStateM.bind, hk]
  rw [exec, Run.bind_of_ok (currentPackage_eq hscope), hresolve]
  exact ⟨_, hrun _⟩

end Importing

end StagedScript
