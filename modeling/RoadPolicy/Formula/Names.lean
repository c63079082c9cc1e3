/-
Fresh names. A supply numbers the names that it has given out; a name carries its number after an
exclamation mark, which occurs in no name of a scenario or a policy, so it is new.
-/
namespace RoadPolicy

/-- How many names have been given out. -/
structure NameSupply where
  issued : Nat
deriving DecidableEq, Repr

/-- A computation that may take fresh names. -/
abbrev Naming := StateM NameSupply

namespace NameSupply

/-- Nothing given out yet. -/
def initial : NameSupply := ⟨0⟩

/-- A new name with the given stem. -/
def fresh (stem : String) : Naming String := fun supply =>
  (stem ++ "!" ++ toString supply.issued, ⟨supply.issued + 1⟩)

end NameSupply

end RoadPolicy
