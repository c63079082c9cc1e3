/-
The double nearest to a rational number; of two equally near ones, the one with the even
significand. Everything is decided in exact integer arithmetic. A magnitude beyond the largest
double becomes infinite.
-/
import RoadPolicy.Number.Power

namespace RoadPolicy

/-- The integer nearest to `n / d`, the even one of two. -/
def roundHalfEven (n d : Nat) : Nat :=
  let q := n / d
  let r := n % d
  if d < 2 * r || (2 * r == d && q % 2 == 1) then q + 1 else q

/-- The fraction `(n / d) / 2 ^ q` as a numerator and a denominator. -/
def scaleDown (n d : Nat) (q : Int) : Nat × Nat :=
  if 0 ≤ q then (n, d * twoTo q.toNat) else (n * twoTo (-q).toNat, d)

/-- The exponent of the last bit that a double near `n / d` can hold: it leaves a significand of 53
bits, but is never below that of the least double. -/
def lastBitExponent (n d : Nat) : Int :=
  -- `n / d` lies strictly between `2 ^ (e - 1)` and `2 ^ (e + 1)`
  let e : Int := (n.log2 : Int) - (d.log2 : Int)
  let q := e - 53
  let (num, den) := scaleDown n d q
  max (if num / den < twoTo 53 then q else q + 1) (-1074)

/-- The bits of positive infinity. -/
def infinityBits : Nat := 0x7FF * twoTo 52

/-- The bits of the double nearest to `n / d`, without its sign. A significand that rounds up to a
power of two carries into the exponent field, which is just the next double. -/
def magnitudeBits (n d : Nat) : Nat :=
  if n = 0 then 0
  else
    let q := lastBitExponent n d
    let (num, den) := scaleDown n d q
    min ((q + 1074).toNat * twoTo 52 + roundHalfEven num den) infinityBits

/-- The double nearest to a rational number. -/
def nearestFloat (x : Rat) : Float :=
  let bits := magnitudeBits x.num.natAbs x.den
  Float.ofBits (UInt64.ofNat (if x.num < 0 then bits + twoTo 63 else bits))

/-- The double nearest to an integer. -/
def floatOfInt (n : Int) : Float :=
  nearestFloat (mkRat n 1)

end RoadPolicy
