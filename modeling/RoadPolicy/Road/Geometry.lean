/-
Geometry in the frame of the road: `l` is the lateral offset and `s` the distance along the road.
Coordinates are terms. A line or an area is a set of points, given by the formula that says when a
point belongs to it.
-/
import RoadPolicy.Formula.Term

namespace RoadPolicy

/-- A point of the road plane. -/
structure Point where
  l : Term
  s : Term

namespace Point

/-- The point whose coordinates are the constants `name_l` and `name_s`. -/
def named (name : String) : Point := ⟨.realConst (name ++ "_l"), .realConst (name ++ "_s")⟩

/-- The square of the distance between two points. -/
def squareDistance (p q : Point) : Term := (q.l - p.l).square + (q.s - p.s).square

end Point

/-- Lines. -/
inductive Line where
  | segment (start stop : Point)
  | ray (origin dir : Point)
  /-- The points of a ray within a given distance of its origin. -/
  | limitedRay (origin dir : Point) (length : Term)
  /-- Where something that starts at `origin` with velocity `v` comes by within `horizon` seconds. -/
  | trajectory (origin v : Point) (horizon : Term)

/-- The point lies on the ray from an origin in a direction: it is on the line through the origin,
and on neither axis on the far side of it. -/
def onRay (origin dir p : Point) : List Term :=
  let ds := p.s - origin.s
  let dl := p.l - origin.l
  [.eq (dir.l * ds) (dir.s * dl), (dir.s * ds).ge (.int 0), (dir.l * dl).ge (.int 0)]

namespace Line

/-- The point lies on the line. -/
def contains : Line → Point → Term
  | segment start stop, p =>
    .and [
      .eq ((stop.s - start.s) * (stop.l - p.l)) ((stop.s - p.s) * (stop.l - start.l)),
      .or [.and [p.l.le stop.l, p.l.ge start.l], .and [p.l.ge stop.l, p.l.le start.l]]]
  | ray origin dir, p => .and (onRay origin dir p)
  | limitedRay origin dir length, p =>
    .and ((origin.squareDistance p).le length.square :: onRay origin dir p)
  | trajectory origin v horizon, p =>
    .and ((origin.squareDistance p).le ((v.l * horizon).square + (v.s * horizon).square) ::
      onRay origin v p)

end Line

/-- Areas. -/
inductive Area where
  /-- A box given by its center and its half extents. -/
  | centered (center half : Point)
  /-- A box given by its least and greatest corners. -/
  | bounded (start stop : Point)
  /-- What lies ahead, from `left` on the one side to `right` on the other. -/
  | corridor (left right : Term)

namespace Area

/-- The point lies in the area. -/
def contains : Area → Point → Term
  | centered center half, p =>
    let dl := p.l - center.l
    let ds := p.s - center.s
    .and [dl.le half.l, dl.ge (-half.l), ds.le half.s, ds.ge (-half.s)]
  | bounded start stop, p =>
    .and [p.l.ge start.l, p.l.le stop.l, p.s.ge start.s, p.s.le stop.s]
  | corridor left right, p => .and [p.s.gt (.int 0), p.l.ge (-left), p.l.le right]

end Area

end RoadPolicy
