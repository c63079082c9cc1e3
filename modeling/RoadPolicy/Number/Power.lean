/-
The powers that binary and decimal notation weigh their digits with.
-/
namespace RoadPolicy

/-- The power of two with a given exponent. -/
def twoTo (k : Nat) : Nat := Nat.pow 2 k

/-- The power of ten with a given exponent. -/
def tenTo (k : Nat) : Nat := Nat.pow 10 k

end RoadPolicy
