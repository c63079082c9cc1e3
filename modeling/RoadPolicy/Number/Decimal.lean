/-
Exact numbers from decimal text. A text of digits with at most one point denotes a rational number;
nothing is rounded, whatever its length.
-/
import RoadPolicy.Number.Power
import RoadPolicy.Text.Digits

namespace RoadPolicy

/-- The integer that one or more digits write. -/
def natural? (text : String) : Option Nat :=
  if allDigits text.toList then some (ofDigits text.toList) else none

/-- The number that a decimal text writes: digits, then possibly a point and more digits. Digits
before the point are required, digits after it are not. -/
def decimal? (text : String) : Option Rat :=
  let (whole, fraction?) := cutAtPoint text.toList
  let fraction := fraction?.getD []
  if !whole.isEmpty && (whole ++ fraction).all Char.isDigit then
    some (mkRat (ofDigits (whole ++ fraction)) (tenTo fraction.length))
  else none

/-- The quotient of two integers in lowest terms, its sign on the numerator; none for a zero
denominator. -/
def quotient? (num den : Int) : Option Rat :=
  if den = 0 then none
  else if den < 0 then some (mkRat (-num) den.natAbs)
  else some (mkRat num den.natAbs)

/-- A number as an integer or as a fraction in lowest terms. -/
def fractionText (q : Rat) : String :=
  if q.den = 1 then toString q.num else toString q.num ++ "/" ++ toString q.den

end RoadPolicy
