/-
Traffic objects: what stands or moves on the road. The unknown features of an object are constants
named after it, and constraints say what is always true of them.
-/
import RoadPolicy.Road.Geometry

namespace RoadPolicy

/-- The kinds of objects. -/
inductive ObjectKind where
  | vehicle
  | pedestrian
  | destination
  | crosswalk
  | trafficLight
  | stopSign
  | yieldSign
  | intersection
deriving DecidableEq, Repr

namespace ObjectKind

def all : List ObjectKind :=
  [vehicle, pedestrian, destination, crosswalk, trafficLight, stopSign, yieldSign, intersection]

/-- The label that starts the names of objects of a kind. -/
def label : ObjectKind → String
  | vehicle => "vehicle"
  | pedestrian => "pedestrian"
  | destination => "destination"
  | crosswalk => "crosswalk"
  | trafficLight => "traffic_light"
  | stopSign => "stop_sign"
  | yieldSign => "yield_sign"
  | intersection => "intersection"

def ofLabel? (label : String) : Option ObjectKind :=
  all.find? fun k => k.label == label

/-- Objects of the kind move. -/
def isMobile : ObjectKind → Bool
  | vehicle => true
  | pedestrian => true
  | _ => false

/-- Objects of the kind belong to a lane. -/
def hasLane : ObjectKind → Bool
  | vehicle => true
  | stopSign => true
  | yieldSign => true
  | _ => false

/-- The name of an object; without an id it is the label. -/
def objectName (kind : ObjectKind) (id : String) : String :=
  if id.isEmpty then kind.label else kind.label ++ "_" ++ id

end ObjectKind

/-- The features of a lane. The turn is negative to the left and positive to the right. -/
structure Lane where
  wayId : Term
  roadId : Term
  laneId : Term
  turn : Term

/-- The lane whose features are constants with a common start of their names. -/
def Lane.named (name : String) : Lane :=
  ⟨.realConst (name ++ "_way_id"), .realConst (name ++ "_road_id"), .realConst (name ++ "_lane_id"),
    .realConst (name ++ "_turn")⟩

/-- How many seconds of motion a trajectory covers. -/
def trajectoryHorizon : Int := 7

/-- How an object moves. -/
structure Motion where
  v : Point
  /-- The square of the speed. -/
  velocity : Term
  trajectory : Line

/-- Motion with a given velocity, from a given place. -/
def Motion.ofVelocity (origin v : Point) : Motion :=
  ⟨v, v.l.square + v.s.square, .trajectory origin v (.int trajectoryHorizon)⟩

/-- An object. -/
structure TrafficObject where
  kind : ObjectKind
  name : String
  pos : Point
  /-- Half extents. -/
  size : Point
  motion : Option Motion
  lane : Option Lane
  color : Option Term
  arriveTime : Option Term
  constraints : List Term

namespace TrafficObject

def startL (o : TrafficObject) : Term := o.pos.l - o.size.l

def endL (o : TrafficObject) : Term := o.pos.l + o.size.l

def startS (o : TrafficObject) : Term := o.pos.s - o.size.s

def endS (o : TrafficObject) : Term := o.pos.s + o.size.s

/-- The box that the object fills. -/
def boundary (o : TrafficObject) : Area := .centered o.pos o.size

/-- An object of a kind, without constraints. -/
def unconstrained (kind : ObjectKind) (id : String) : TrafficObject :=
  let name := kind.objectName id
  let pos := Point.named (name ++ "_pos")
  { kind, name, pos
    size := .named (name ++ "_size")
    motion := if kind.isMobile then some (.ofVelocity pos (.named (name ++ "_v"))) else none
    lane := if kind.hasLane then some (.named (name ++ "_lane")) else none
    color := if kind = .trafficLight then some (.realConst (name ++ "_color")) else none
    arriveTime := if kind = .vehicle then some (.realConst (name ++ "_arrive_time")) else none
    constraints := [] }

/-- The half extents are fixed. -/
def hasSize (o : TrafficObject) (l s : Term) : Term := .and [.eq o.size.l l, .eq o.size.s s]

/-- The square of the speed is at most `max`, if the object moves. -/
def speedLimit (o : TrafficObject) (max : Int) : List Term :=
  match o.motion with
  | some m => [m.velocity.le (.int max)]
  | none => []

/-- What is true of an object of its kind, besides that it has an extent. -/
def kindConstraints (o : TrafficObject) : List Term :=
  match o.kind with
  | .vehicle => o.hasSize (.int 2) (.int 2) :: o.speedLimit 80
  | .pedestrian => o.hasSize (.real (mkRat 1 2)) (.real (mkRat 1 2)) :: o.speedLimit 5
  | .destination => [o.hasSize (.int 2) (.int 2)]
  | .crosswalk =>
    [.and [.eq o.size.s (.int 2), o.size.l.ge (.int 5)],
      .and [o.pos.s.ge (.int 5), o.pos.s.lt (.int 50)],
      (o.startL * o.endL).le (.int 0)]
  | .trafficLight => []
  | .stopSign => []
  | .yieldSign => []
  | .intersection => [.and [o.size.s.ge (.int 10), o.size.l.ge (.int 5)]]

/-- An object of a kind. -/
def ofKind (kind : ObjectKind) (id : String) : TrafficObject :=
  let o := unconstrained kind id
  { o with
    constraints := .and [o.size.l.gt (.int 0), o.size.s.gt (.int 0)] :: o.kindConstraints }

end TrafficObject

end RoadPolicy
