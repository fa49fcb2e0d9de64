import StagedScript.Evaluation.Program
import StagedScript.Staging.Failure
import StagedScript.Staging.Results

/-!
# Evaluation ahead of time

A module is run, and then each function that it registered is called with every
combination of its arguments.  Skipped functions stay silent until the last
call has ended.
-/

namespace StagedScript.Staging

open Evaluation (ModuleSpec)
open Run

/-- Runs an action that may also fail for a reason that programs do not see; an exception is a
failure too. -/
def attempt {α : Type} (action : Run (Except Failure α)) (m : Machine) :
    Except Failure α × Machine :=
  match action.run m with
  | .ok result m => (result, m)
  | .error (.raised e) m => (.error (.raised e), m)
  | .error .exhausted m => (.error .exhausted, m)

def runModule (spec : ModuleSpec) (source : String) : Run (Except Failure LoadedModule) := do
  match ← Evaluation.execSource Evaluation.fullServices spec source with
  | .ok m => return .ok m
  | .error fault => return .error (.malformed fault)

/-- Runs an action while code counts as evaluated ahead of time. -/
def aheadOfTime {α : Type} (action : Run α) : Run α := do
  let before := (← get).ahead
  bracket (fun m => { m with ahead := true }) (fun m => { m with ahead := before }) action

/-- Runs a module and gives what it registered; what was registered before is forgotten. -/
def collect (spec : ModuleSpec) (source : String) :
    Run (Except Failure Registrations) := do
  modify fun m => { m with registrations := [] }
  match ← runModule spec source with
  | .ok _ => return .ok (← get).registrations
  | .error failure => return .error failure

/-- What a module registers, with code counting as evaluated ahead of time. -/
def loadRegistrations (spec : ModuleSpec) (source : String) :
    Run (Except Failure Registrations) :=
  aheadOfTime (collect spec source)

/-- The items of a tuple. -/
def tupleItems? (h : Heap) : Value → Option (List Value)
  | .tuple r => some (h.tuple r).toList
  | _ => none

/-- Calls a function with each combination and adds the results. -/
def callVariants (r : Registration) (results : Results Value) :
    List (ArgKey Value) → Run (Results Value)
  | [] => return results
  | args :: others => do
    let value ← Evaluation.fullServices.call r.callable args.values
    let results := results.insertOn (← getHeap) (.variant r.name args) value
    callVariants r results others

/-- Evaluates registered functions and adds the results. -/
def callAll (results : Results Value) : Registrations → Run (Results Value)
  | [] => return results
  | r :: rs => do
    if r.args.isEmpty then
      let value ← Evaluation.fullServices.call r.callable []
      callAll (results.insertOn (← getHeap) (.whole r.name) value) rs
    else
      let args := expand (tupleItems? (← getHeap)) r.args
      callAll (← callVariants r results args) rs

/-- The results of everything that a module registers. -/
def precompute (spec : ModuleSpec) (source : String) :
    Run (Except Failure (Results Value)) :=
  aheadOfTime do
    match ← collect spec source with
    | .ok registrations => return .ok (← callAll [] registrations)
    | .error failure => return .error failure

end StagedScript.Staging
