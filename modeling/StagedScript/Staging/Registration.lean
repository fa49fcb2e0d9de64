import StagedScript.Value.Basic

/-!
# Registered functions

The functions that are to be evaluated ahead of time, in the order in which
their names were first registered.
-/

namespace StagedScript

/-- A registered function and its arguments; without arguments it is evaluated once. -/
structure Registration where
  name : String
  callable : Value
  args : List Value
  deriving Repr, DecidableEq

/-- Registrations with different names. -/
abbrev Registrations := List Registration

namespace Registrations

/-- Adds a registration.  One of the same name is replaced at its place. -/
def register (r : Registration) : Registrations → Registrations
  | [] => [r]
  | other :: rest =>
    if other.name = r.name then r :: rest else other :: register r rest

def get? (rs : Registrations) (name : String) : Option Registration :=
  rs.find? (·.name == name)

theorem names_register (r : Registration) (rs : Registrations) :
    (register r rs).map (·.name) =
      if r.name ∈ rs.map (·.name) then rs.map (·.name) else rs.map (·.name) ++ [r.name] := by
  induction rs with
  | nil => simp [register]
  | cons other rest ih =>
    unfold register
    split
    · next h => simp [h]
    · next h =>
      have hne : r.name ≠ other.name := fun heq => h heq.symm
      by_cases hmem : r.name ∈ rest.map (·.name) <;> simp_all

end Registrations

end StagedScript
