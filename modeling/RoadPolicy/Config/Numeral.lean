/-
The numbers of a settings file. Integers have four bases and 64 bits. Numbers with a point or an
exponent are checked against the range of a double and otherwise stay as they are spelt. Single
underscores may stand between the digits of both.
-/
import RoadPolicy.Number.Nearest
import RoadPolicy.Text.Digits

namespace RoadPolicy.Config

/-- The value of a digit in bases up to sixteen. -/
def digitValue? (base : Nat) (c : Char) : Option Nat :=
  let value :=
    if c.isDigit then some (c.toNat - '0'.toNat)
    else if 'a' ≤ c && c ≤ 'f' then some (c.toNat - 'a'.toNat + 10)
    else if 'A' ≤ c && c ≤ 'F' then some (c.toNat - 'A'.toNat + 10)
    else none
  value.filter (· < base)

/-- The digits without the underscores between them. -/
def grouped? (base : Nat) (cs : List Char) : Option (List Char) := do
  let groups := cs.splitOn '_'
  guard (groups.all fun g => !g.isEmpty && g.all fun c => (digitValue? base c).isSome)
  return groups.flatten

/-- The number that groups of digits write. -/
def digits? (base : Nat) (cs : List Char) : Option Nat := do
  let values ← (← grouped? base cs).mapM (digitValue? base)
  return values.foldl (fun n d => base * n + d) 0

/-- Digits in base ten, without needless zeros in front. -/
def plainDigits? (cs : List Char) : Option (List Char) := do
  guard (cs.head? != some '0' || cs.length == 1)
  grouped? 10 cs

/-! ## Integers -/

/-- The integers that a settings file can hold have 64 bits. -/
def bounded? (n : Int) : Option Int :=
  if -9223372036854775808 ≤ n ∧ n ≤ 9223372036854775807 then some n else none

/-- An integer. Only base ten has signs. -/
def integer? : List Char → Option Int
  | '0' :: 'x' :: cs => (digits? 16 cs).bind fun n => bounded? n
  | '0' :: 'o' :: cs => (digits? 8 cs).bind fun n => bounded? n
  | '0' :: 'b' :: cs => (digits? 2 cs).bind fun n => bounded? n
  | '-' :: cs => (plainDigits? cs).bind fun ds => bounded? (-(ofDigits ds : Int))
  | '+' :: cs => (plainDigits? cs).bind fun ds => bounded? (ofDigits ds)
  | cs => (plainDigits? cs).bind fun ds => bounded? (ofDigits ds)

/-! ## Numbers with a point or an exponent -/

/-- A number in scientific notation: its digits, read as an integer, times a power of ten. -/
structure Scientific where
  digits : List Char
  exponent : Int
deriving DecidableEq, Repr

/-- The digits after an exponent's mark, with a sign or without. -/
def exponentDigits? : List Char → Option Int
  | '-' :: cs => (digits? 10 cs).map fun n => -(n : Int)
  | '+' :: cs => (digits? 10 cs).map fun n => (n : Int)
  | cs => (digits? 10 cs).map fun n => (n : Int)

/-- An exponent with its mark. -/
def exponent? : List Char → Option Int
  | 'e' :: cs => exponentDigits? cs
  | 'E' :: cs => exponentDigits? cs
  | _ => none

/-- A number with a point, an exponent or both, but no sign. -/
def scientific? (cs : List Char) : Option Scientific := do
  let inWhole := fun c => c != '.' && c != 'e' && c != 'E'
  let whole ← plainDigits? (cs.takeWhile inWhole)
  match cs.dropWhile inWhole with
  | '.' :: cs =>
    let inFraction := fun c => c != 'e' && c != 'E'
    let fraction ← grouped? 10 (cs.takeWhile inFraction)
    let exponent ← match cs.dropWhile inFraction with
      | [] => some 0
      | cs => exponent? cs
    return ⟨whole ++ fraction, exponent - fraction.length⟩
  | cs => return ⟨whole, ← exponent? cs⟩

/-- Whether the nearest double is infinite. The place of the first digit decides this, unless it is
that of the greatest double. -/
def Scientific.overflows (x : Scientific) : Bool :=
  let significant := x.digits.dropWhile (· == '0')
  let places : Int := significant.length + x.exponent
  if significant.isEmpty then false
  else if 309 < places then true
  else if places < 309 then false
  else
    let num := ofDigits significant * tenTo x.exponent.toNat
    magnitudeBits num (tenTo (-x.exponent).toNat) == infinityBits

/-- The words for what is not a finite number. -/
def isNotFinite (cs : List Char) : Bool := cs == ['i', 'n', 'f'] || cs == ['n', 'a', 'n']

/-- A number with a point or an exponent, an infinity, or no number. An infinity has to be written as
one: a positive number out of range is refused. A negative one is not. -/
def isFloat : List Char → Bool
  | '-' :: cs => isNotFinite cs || (scientific? cs).isSome
  | '+' :: cs => isNotFinite cs || (scientific? cs).any fun x => !x.overflows
  | cs => isNotFinite cs || (scientific? cs).any fun x => !x.overflows

end RoadPolicy.Config
