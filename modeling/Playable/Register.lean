import Playable.Text.Basic

/-!
# Registers

A register holds values under names, in the order in which the names were first
entered. Entering a name again replaces its value and keeps its place.
-/

namespace Playable

/-- Values under names, in order of entry. -/
abbrev Register (α : Type) := List (Text × α)

namespace Register

variable {α : Type}

/-- Whether a name is entered. -/
def has (r : Register α) (name : Text) : Bool :=
  r.any (·.1 = name)

/-- The value of a name. -/
def get? (r : Register α) (name : Text) : Option α :=
  (r.find? (·.1 = name)).map (·.2)

/-- Enter a value: a new name goes to the end, a known one keeps its place. -/
def set (r : Register α) (name : Text) (value : α) : Register α :=
  if has r name then r.map fun entry => if entry.1 = name then (name, value) else entry
  else r ++ [(name, value)]

/-- The register without a name. -/
def erase (r : Register α) (name : Text) : Register α :=
  r.filter (·.1 ≠ name)

/-- The names in order. -/
def names (r : Register α) : List Text :=
  r.map (·.1)

/-- The register that results from entering values one after the other. -/
def ofPairs (pairs : List (Text × α)) : Register α :=
  pairs.foldl (fun r entry => set r entry.1 entry.2) []

end Register
end Playable
