/-
Encounters in space and time between a vehicle and a moving obstacle. The path of the obstacle is
followed to the two sides of the band that both of them can fill laterally; `a` and `b` are the
distances along the road at which it passes them. They are compared with the window that both can
fill along the road around the vehicle. In every case the two trajectories have to meet.
-/
import RoadPolicy.Road.Object
import RoadPolicy.Road.Relation

namespace RoadPolicy

/-- Where the path of the obstacle passes the sides of the band, and the window. -/
structure Band where
  a : Term
  b : Term
  lo : Term
  hi : Term

/-- The distance along the road at which the path of an obstacle has a given lateral offset. -/
def passesAt (obstacle : TrafficObject) (v : Point) (offset : Term) : Term :=
  (offset - obstacle.pos.l) / v.l * v.s + obstacle.pos.s

def Band.between (ego obstacle : TrafficObject) (v : Point) : Band :=
  let reach := ego.size.l + obstacle.size.l
  let window := ego.size.s + obstacle.size.s
  { a := passesAt obstacle v (-reach)
    b := passesAt obstacle v reach
    lo := ego.pos.s - window
    hi := ego.pos.s + window }

/-- The ways in which the obstacle can pass. -/
inductive Encounter where
  /-- Inside the window, on one side of the band at least. -/
  | cross
  /-- Below the window on both sides. -/
  | above
  /-- Beyond the window on both sides. -/
  | below
deriving DecidableEq, Repr

namespace Encounter

/-- The condition on the band. -/
def timing : Encounter → Band → Term
  | cross, k => .or [.and [k.a.ge k.lo, k.a.le k.hi], .and [k.b.ge k.lo, k.b.le k.hi]]
  | above, k => .and [k.a.lt k.lo, k.b.lt k.lo]
  | below, k => .and [k.a.gt k.hi, k.b.gt k.hi]

/-- The encounter of two objects; none unless both move. -/
def formula (e : Encounter) (ego obstacle : TrafficObject) : Option (Naming Term) :=
  match ego.motion, obstacle.motion with
  | some m, some n => some do
    let paths ← meets m.trajectory.contains n.trajectory.contains
    return .and [e.timing (.between ego obstacle n.v), paths]
  | none, _ => none
  | some _, none => none

end Encounter

end RoadPolicy
