import StagedScript.Machine.Basic

/-!
# Markers

A marker that is applied to a function registers it or keeps it silent; applied
to anything else it collects arguments for the function to come.
-/

namespace StagedScript.Staging

open Run

/-- The function that the arguments consist of. -/
def onlyFunction? : List Value → Option Entity
  | [.entity (.function code name)] => some (.function code name)
  | [.entity (.builtin f)] => some (.builtin f)
  | [.entity (.skipped inner)] => some (.skipped inner)
  | _ => none

/-- Registers a function with arguments and gives it back. -/
def register (f : Entity) (args : List Value) : Run Value := do
  modify fun m =>
    { m with registrations := m.registrations.register ⟨f.functionName, .entity f, args⟩ }
  return .entity f

/-- Applies a marker that got arguments. -/
def applyAwaiting (spec : Ref .tuple) (args : List Value) : Run Value := do
  match onlyFunction? args with
  | some f => register f ((← getHeap).tuple spec).toList
  | none => fault .markerNeedsFunction

/-- The arguments of every registered function under its name. -/
def registrationsDict : Run Value := do
  let registrations := (← get).registrations
  let entries ← registrations.mapM fun r => do
    return (Value.string r.name, ← newTuple r.args.toArray)
  newDict entries.toArray

/-- Applies a marker. -/
def applyMarker (marker : Marker) (args : List Value) : Run Value := do
  match marker with
  | .comptime =>
    match onlyFunction? args with
    | some f => register f []
    | none => return .awaiting (← changeHeap (·.addTuple args.toArray))
  | .skip =>
    if args.isEmpty then return .marker .skip
    match onlyFunction? args with
    | some f => return .entity (if (← get).ahead then .skipped f else f)
    | none => fault .skipNeedsFunction
  | .getRegistrations =>
    if args.isEmpty then registrationsDict else fault .registrationsTakeNothing

end StagedScript.Staging
