/-
The shortest decimal text of a double. Of all decimals that read back as the double, the ones with
the fewest digits are taken, and of those the nearest to its value. The search is exact: a double is
an integer times a power of two, and so are the ends of the interval of numbers that round to it.
-/
import RoadPolicy.Number.Power

namespace RoadPolicy

/-- A positive finite double `significand * 2 ^ exponent`. -/
structure Binary where
  significand : Nat
  exponent : Int
deriving DecidableEq, Repr

/-- A positive decimal `digits * 10 ^ exponent`. -/
structure Decimal where
  digits : Nat
  exponent : Int
deriving DecidableEq, Repr

namespace Binary

/-- Reads the exponent and fraction fields of a finite double. -/
def ofFields (biased fraction : Nat) : Binary :=
  if biased = 0 then ⟨fraction, -1074⟩ else ⟨twoTo 52 + fraction, (biased : Int) - 1075⟩

/-- `a * 2 ^ p` against `b * 10 ^ k`, both brought to integers. -/
def compareWith (a : Nat) (p : Int) (b : Nat) (k : Int) : Ordering :=
  let left := a * twoTo p.toNat * tenTo (-k).toNat
  let right := b * tenTo k.toNat * twoTo (-p).toNat
  compare left right

/-- The ends of the interval of numbers that round to the double, in quarters of its last bit. Below
a power of two the doubles lie twice as close. -/
def ends (x : Binary) : Nat × Nat :=
  let lower := if x.significand = twoTo 52 ∧ -1074 < x.exponent then 1 else 2
  (4 * x.significand - lower, 4 * x.significand + 2)

/-- A decimal reads back as the double: it lies in the interval, whose ends count if the significand
is even. -/
def readsBack (x : Binary) (d : Decimal) : Bool :=
  let (low, high) := x.ends
  let fromLow := compareWith low (x.exponent - 2) d.digits d.exponent
  let toHigh := compareWith high (x.exponent - 2) d.digits d.exponent
  if x.significand % 2 = 0 then fromLow != .gt && toHigh != .lt
  else fromLow == .lt && toHigh == .gt

/-- The largest multiple of `10 ^ k` that is at most the double, as a count. -/
def floorAt (x : Binary) (k : Int) : Nat :=
  (x.significand * twoTo x.exponent.toNat * tenTo (-k).toNat) /
    (tenTo k.toNat * twoTo (-x.exponent).toNat)

/-- Of the two multiples of `10 ^ k` around the double, the one that reads back; if both do, the
nearer one, and of two equally near ones the even one. -/
def candidateAt (x : Binary) (k : Int) : Option Decimal :=
  let c := x.floorAt k
  let below : Decimal := ⟨c, k⟩
  let above : Decimal := ⟨c + 1, k⟩
  match x.readsBack below, x.readsBack above with
  | true, false => some below
  | false, true => some above
  | false, false => none
  | true, true =>
    -- twice the double against the sum of both neighbours
    match compareWith (2 * x.significand) x.exponent (2 * c + 1) k with
    | .lt => some below
    | .gt => some above
    | .eq => some (if c % 2 = 0 then below else above)

/-- The first candidate on the grids `10 ^ k`, `10 ^ (k - 1)`, … -/
def searchFrom (x : Binary) : Nat → Int → Option Decimal
  | 0, _ => none
  | fuel + 1, k =>
    match x.candidateAt k with
    | some d => some d
    | none => x.searchFrom fuel (k - 1)

end Binary

namespace Decimal

/-- Drops zeros at the end of the digits. -/
def stripWithin : Nat → Decimal → Decimal
  | 0, d => d
  | fuel + 1, d =>
    if d.digits % 10 = 0 then stripWithin fuel ⟨d.digits / 10, d.exponent + 1⟩ else d

end Decimal

/-- The leading digit of the double has at most this decimal exponent: its binary exponent is scaled
by 1233 / 4096, which is close to the logarithm of two to the base ten, and one is added. -/
def leadingExponentBound (x : Binary) : Int :=
  ((x.significand.log2 : Int) + x.exponent + 1) * 1233 / 4096 + 1

/-- The shortest decimal of a positive double. Seventeen digits always suffice, and the search starts
a few places above the leading one. -/
def shortest (x : Binary) : Decimal :=
  match x.searchFrom 24 (leadingExponentBound x) with
  | some d => d.stripWithin 20
  | none => ⟨0, 0⟩

/-! ## Layout -/

/-- Which decimal exponents of the leading digit are written positionally. -/
structure DecimalLayout where
  positionalFrom : Int
  positionalBelow : Int

namespace Decimal

/-- The exponent of the leading digit. -/
def leading (d : Decimal) : Int :=
  d.exponent + ((toString d.digits).length : Int) - 1

/-- Digits with the point in its place and at least one digit on either side of it. -/
def positional (d : Decimal) : String :=
  let digits := toString d.digits
  if 0 ≤ d.exponent then
    digits ++ "".pushn '0' d.exponent.toNat ++ ".0"
  else
    let places := (-d.exponent).toNat
    if digits.length ≤ places then
      "0." ++ "".pushn '0' (places - digits.length) ++ digits
    else
      let cut := digits.length - places
      String.ofList (digits.toList.take cut) ++ "." ++ String.ofList (digits.toList.drop cut)

/-- One digit before the point, if there are more, and the exponent with its sign. -/
def scientific (d : Decimal) : String :=
  let e := d.leading
  let mantissa :=
    match (toString d.digits).toList with
    | [] => ""
    | [c] => String.singleton c
    | c :: cs => String.singleton c ++ "." ++ String.ofList cs
  mantissa ++ "e" ++ (if e < 0 then "-" else "+") ++ toString e.natAbs

def layOut (layout : DecimalLayout) (d : Decimal) : String :=
  if layout.positionalFrom ≤ d.leading && d.leading < layout.positionalBelow then d.positional
  else d.scientific

end Decimal

/-- The text of a finite double, with the sign of a negative zero; none for infinities and for what
is not a number. -/
def finiteFloatText? (layout : DecimalLayout) (x : Float) : Option String :=
  let bits := x.toBits.toNat
  let biased := bits / twoTo 52 % twoTo 11
  let fraction := bits % twoTo 52
  let sign := if bits < twoTo 63 then "" else "-"
  if biased = twoTo 11 - 1 then none
  else if biased = 0 ∧ fraction = 0 then some (sign ++ "0.0")
  else some (sign ++ (shortest (.ofFields biased fraction)).layOut layout)

end RoadPolicy
