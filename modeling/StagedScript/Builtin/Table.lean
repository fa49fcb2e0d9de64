import StagedScript.Builtin.Mathematics
import StagedScript.Value.Heap

/-!
# Names without a definition

The names that every module knows and the modules that need no file.
-/

namespace StagedScript.Builtin

/-- The global functions and the kinds of exceptions by name. -/
def global? (name : String) : Option Value :=
  match GlobalFunction.all.find? (·.name == name) with
  | some f => some (.builtin (.global f))
  | none => (ExceptionKind.ofName? name).map fun kind => .entity (.exceptionType kind)

def markerModule : Bindings :=
  [Marker.comptime, .skip, .getRegistrations].map fun m => (m.name, .marker m)

def mathModule : Bindings :=
  MathFunction.all.map (fun f => (f.name, .builtin (.math f)))
    ++ [("pi", .float pi), ("e", .float euler), ("inf", .float (1.0 / 0.0))]

def typingModule : Bindings :=
  TypeForm.all.map fun f => (f.name, .builtin (.form f))

/-- The globals of a module that needs no file. -/
def module? (name : String) : Option Bindings :=
  match name with
  | "comptime" => some markerModule
  | "math" => some mathModule
  | "typing" => some typingModule
  | _ => none

end StagedScript.Builtin
