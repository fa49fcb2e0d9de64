import StagedScript.Module.FileTree
import StagedScript.Value.Fault

/-!
# Modules by name

Where a dotted name is looked for, which modules are loaded and which ones are
being loaded.
-/

namespace StagedScript

def sourceExtension : String := "ath"

/-- The file that makes its directory a package. -/
def packageFile : String := "__init__.ath"

/-- What a dotted name leads to. -/
inductive ModuleSource
  | file (path : String)
  /-- The package file of a directory. -/
  | package (path : String)
  /-- A directory without a package file. -/
  | bare (path : String)
  deriving Repr, DecidableEq

def ModuleSource.isPackage : ModuleSource → Bool
  | file _ => false
  | _ => true

/-- A module that was loaded: its name and the scope with its globals. -/
structure LoadedModule where
  name : String
  globals : Ref .frame
  deriving Repr, DecidableEq

def LoadedModule.value (m : LoadedModule) : Value :=
  .module m.name m.globals

/-- What happens to modules. -/
inductive ModuleEvent
  /-- The file of a module begins to run. -/
  | begun (name : String)
  /-- A module counts as loaded. -/
  | kept (name : String) (module : LoadedModule)
  /-- The run of the file of a module has ended, and it came to its end or not. -/
  | ended (name : String) (completed : Bool)
  deriving Repr, DecidableEq

/-- The search paths, the loaded modules and the names of those that are running, outermost
first. -/
structure ModuleCache where
  searchPaths : List String := []
  loaded : List (String × LoadedModule) := []
  loading : List String := []
  /-- What has happened so far, the latest first. -/
  history : List ModuleEvent := []

namespace ModuleCache

/-- Adds a search path unless it is there. -/
def addPath (c : ModuleCache) (path : String) : ModuleCache :=
  if c.searchPaths.any (Path.same path) then c
  else { c with searchPaths := c.searchPaths ++ [path] }

def ofPaths (paths : List String) : ModuleCache :=
  paths.foldl addPath {}

/-- The module that was loaded under a name. -/
def get? (c : ModuleCache) (name : String) : Option LoadedModule :=
  c.loaded.lookup name

def insert (c : ModuleCache) (name : String) (m : LoadedModule) : ModuleCache :=
  { c with
    loaded := (name, m) :: c.loaded.filter (·.1 != name)
    history := .kept name m :: c.history }

theorem get?_insert (c : ModuleCache) (name other : String) (loaded : LoadedModule) :
    (c.insert name loaded).get? other = if other = name then some loaded else c.get? other := by
  have hfilter (entries : List (String × LoadedModule)) (hne : other ≠ name) :
      (entries.filter (·.1 != name)).lookup other = entries.lookup other := by
    induction entries with
    | nil => rfl
    | cons e entries ih =>
      by_cases he : e.1 = name
      · have hother : (other == e.1) = false := by simpa [he] using hne
        rw [List.filter_cons_of_neg (by simp [he]), ih, List.lookup_cons, hother]
      · rw [List.filter_cons_of_pos (by simp [he]), List.lookup_cons, List.lookup_cons, ih]
  unfold insert get?
  rw [List.lookup_cons]
  by_cases hother : other = name
  · simp [hother]
  · rw [if_neg hother, beq_false_of_ne hother]
    exact hfilter c.loaded hother

/-- Notes that a module is running; it must not be running already. -/
def beginLoading (c : ModuleCache) (name : String) : Except Fault ModuleCache :=
  if c.loading.contains name then .error (.circularImport c.loading name)
  else .ok { c with loading := c.loading ++ [name], history := .begun name :: c.history }

def finishLoading (c : ModuleCache) (name : String) : ModuleCache :=
  { c with loading := (c.loading.reverse.erase name).reverse }

/-- Notes that a module has run, and whether it came to its end. -/
def endLoading (c : ModuleCache) (name : String) (completed : Bool) : ModuleCache :=
  { c.finishLoading name with history := .ended name completed :: c.history }

/-- What a dotted name leads to below one search path: a package before a file before a bare
directory. -/
def findBelow? (files : FileTree) (root : String) (name : String) : Option ModuleSource :=
  let directory := Path.join root ((Text.splitAt "." name).foldl Path.join "")
  let package := Path.join directory packageFile
  let file := Path.withExtension directory sourceExtension
  if files.isFile package then some (.package package)
  else if files.isFile file then some (.file file)
  else if files.isDirectory directory then some (.bare directory)
  else none

/-- What a dotted name leads to below the first search path that has it. -/
def find? (c : ModuleCache) (files : FileTree) (name : String) : Option ModuleSource :=
  c.searchPaths.findSome? fun root => findBelow? files root name

end ModuleCache

/-- The full name of a module.  Each level but the first leaves one package, starting from that of
the importing module. -/
def resolveName (package : Option String) (level : Nat) (module : Option String) :
    Except Fault String :=
  if level = 0 then
    match module with
    | some name => .ok name
    | none => .error .emptyModuleName
  else
    match package with
    | none | some "" => .error .noParentPackage
    | some package =>
      let parts := Text.splitAt "." package
      if parts.length < level then .error .beyondTopLevel
      else
        let base := ".".intercalate (parts.take (parts.length - (level - 1)))
        .ok (match module with
          | some name => base ++ "." ++ name
          | none => base)

/-- The part of a dotted name before the last dot, and the part after it. -/
def splitName? (name : String) : Option (String × String) :=
  let reversed := name.toList.reverse
  match reversed.dropWhile (· != '.') with
  | _ :: before =>
    some (String.ofList before.reverse,
      String.ofList (reversed.takeWhile (· != '.')).reverse)
  | [] => none

end StagedScript
