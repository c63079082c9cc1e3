/-
Decimal digits: the only characters that number literals are made of, besides one point.
-/
namespace RoadPolicy

/-- One or more ASCII digits and nothing else. -/
def allDigits (cs : List Char) : Bool :=
  !cs.isEmpty && cs.all Char.isDigit

/-- The number that a list of decimal digits writes, most significant digit first. -/
def ofDigits (cs : List Char) : Nat :=
  cs.foldl (fun n c => 10 * n + (c.toNat - '0'.toNat)) 0

/-- A text cut at its first point: the part before it and, if there is a point, the part after. -/
def cutAtPoint (cs : List Char) : List Char × Option (List Char) :=
  match cs.dropWhile (· != '.') with
  | [] => (cs, none)
  | _ :: rest => (cs.takeWhile (· != '.'), some rest)

end RoadPolicy
