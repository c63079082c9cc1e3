/-
Dates and times of day in a settings file. `moment?` reads a date, a time, or a date and a time with
or without an offset. A day has to exist in its month; a minute may have a leap second.
-/
import RoadPolicy.Text.Digits

namespace RoadPolicy.Config

/-- A day of the calendar. -/
structure Date where
  year : Nat
  month : Nat
  day : Nat
deriving DecidableEq, Repr

/-- A time of day. The fraction of a second stays as it is spelt. -/
structure Time where
  hour : Nat
  minute : Nat
  second : Nat
  fraction : List Char
deriving DecidableEq, Repr

/-- A date, a time, or both. The offset tells by how many minutes the place of the clock is ahead. -/
inductive Moment where
  | date (d : Date)
  | time (t : Time)
  | dateTime (d : Date) (t : Time) (offset : Option Int)
deriving DecidableEq, Repr

def isLeapYear (year : Nat) : Bool := year % 4 == 0 && (year % 100 != 0 || year % 400 == 0)

def daysInMonth (year month : Nat) : Nat :=
  if month == 2 then (if isLeapYear year then 29 else 28)
  else if month == 4 || month == 6 || month == 9 || month == 11 then 30
  else 31

/-- The number that two digits write, if it lies within bounds. -/
def pair? (least greatest : Nat) (a b : Char) : Option Nat :=
  let n := ofDigits [a, b]
  if allDigits [a, b] && decide (least ≤ n) && decide (n ≤ greatest) then some n else none

/-- A date and what follows it. -/
def date? : List Char → Option (Date × List Char)
  | a :: b :: c :: d :: '-' :: m :: n :: '-' :: e :: f :: cs => do
    guard (allDigits [a, b, c, d])
    let year := ofDigits [a, b, c, d]
    let month ← pair? 1 12 m n
    let day ← pair? 1 (daysInMonth year month) e f
    return (⟨year, month, day⟩, cs)
  | _ => none

/-- The digits after the point of a second, of which there is at least one. -/
def fraction? : List Char → Option (List Char × List Char)
  | '.' :: cs =>
    match cs.takeWhile Char.isDigit with
    | [] => none
    | digits => some (digits, cs.dropWhile Char.isDigit)
  | _ => none

/-- A time of day and what follows it. -/
def time? : List Char → Option (Time × List Char)
  | h :: i :: ':' :: m :: n :: ':' :: s :: t :: cs => do
    let hour ← pair? 0 23 h i
    let minute ← pair? 0 59 m n
    let second ← pair? 0 60 s t
    let (fraction, cs) := (fraction? cs).getD ([], cs)
    return (⟨hour, minute, second, fraction⟩, cs)
  | _ => none

/-- An offset in hours and minutes, or the letter for none, and what follows it. -/
def offset? : List Char → Option (Int × List Char)
  | sign :: cs =>
    if sign == 'Z' || sign == 'z' then some (0, cs)
    else
      match cs with
      | h :: i :: ':' :: m :: n :: cs => do
        guard (sign == '+' || sign == '-')
        let minutes : Int := 60 * (← pair? 0 23 h i) + (← pair? 0 59 m n)
        return (if sign == '-' then -minutes else minutes, cs)
      | _ => none
  | [] => none

/-- The time after a date, which a letter or one space divides from it. -/
def timeAfterDate? : List Char → Option (Time × List Char)
  | c :: cs => if c == 'T' || c == 't' || c == ' ' then time? cs else none
  | [] => none

/-- A date, a time, or both, and what follows. Only with both there may be an offset. -/
def moment? (cs : List Char) : Option (Moment × List Char) :=
  match date? cs with
  | none => (time? cs).map fun r => (.time r.1, r.2)
  | some (d, cs) =>
    match timeAfterDate? cs with
    | none => some (.date d, cs)
    | some (t, cs) =>
      match offset? cs with
      | none => some (.dateTime d t none, cs)
      | some (offset, cs) => some (.dateTime d t (some offset), cs)

end RoadPolicy.Config
