/-
Scenarios: the ego vehicle at the origin, heading along the road, a destination, lane and road, and
the objects of the capabilities that were installed. A scenario gives the names that policies can
use and the invariants that hold in every situation it allows.
-/
import RoadPolicy.Road.Value

namespace RoadPolicy

/-! ## Capabilities and presets -/

/-- A group of objects that can be added to a scenario. -/
inductive Capability where
  | crosswalk
  | trafficLight
  | stopSign
  | intersection
deriving DecidableEq, Repr

namespace Capability

def all : List Capability := [crosswalk, trafficLight, stopSign, intersection]

def text : Capability → String
  | crosswalk => "crosswalk"
  | trafficLight => "traffic_light"
  | stopSign => "stop_sign"
  | intersection => "intersection"

def ofText? (text : String) : Option Capability :=
  all.find? fun c => c.text == text

/-- The objects that a capability brings. -/
def objects : Capability → List TrafficObject
  | crosswalk => [.ofKind .crosswalk "0", .ofKind .pedestrian "0", .ofKind .vehicle "0"]
  | trafficLight => [.ofKind .trafficLight "self", .ofKind .trafficLight "main"]
  | stopSign => [.ofKind .stopSign "0"]
  | intersection => [.ofKind .intersection "", .ofKind .vehicle "0"]

end Capability

/-- A name for a list of capabilities. -/
inductive Preset where
  | crosswalk
  | intersection
  | trafficLight
  | stopSign
  | full
deriving DecidableEq, Repr

namespace Preset

def all : List Preset := [crosswalk, intersection, trafficLight, stopSign, full]

def text : Preset → String
  | crosswalk => "crosswalk"
  | intersection => "intersection"
  | trafficLight => "traffic-light"
  | stopSign => "stop-sign"
  | full => "full"

def capabilities : Preset → List Capability
  | crosswalk => [.crosswalk]
  | intersection => [.intersection]
  | trafficLight => [.intersection, .trafficLight]
  | stopSign => [.intersection, .stopSign]
  | full => [.crosswalk, .stopSign, .trafficLight, .intersection]

end Preset

/-- A spelling with hyphens for underscores. -/
def hyphenated (text : String) : String := text.map fun c => if c == '_' then '-' else c

/-- The complaint about a word that names no preset. -/
structure UnknownPreset where
  word : String

def UnknownPreset.message (e : UnknownPreset) : String :=
  "unknown scenario '" ++ e.word ++ "' (expected one of: " ++
    ", ".intercalate (Preset.all.map Preset.text) ++ ")"

/-- The preset of a name, written with hyphens or underscores. -/
def Preset.ofText (word : String) : Except UnknownPreset Preset :=
  match Preset.all.find? fun p => p.text == hyphenated word with
  | some p => .ok p
  | none => .error ⟨word⟩

/-! ## Scenarios -/

/-- The numbers that a scenario depends on. -/
structure ScenarioSettings where
  /-- How many ways meet at an intersection. -/
  wayNum : Nat := 4
  maxStopDeceleration : Int := 10
deriving DecidableEq, Repr

/-- A scenario. -/
structure Scenario where
  settings : ScenarioSettings
  /-- The installed capabilities in the order of their installation. -/
  capabilities : List Capability
  ego : TrafficObject
  /-- The other objects. -/
  others : List TrafficObject

/-- Puts an object in the place of one with the same name, or at the end. -/
def TrafficObject.putIn (o : TrafficObject) : List TrafficObject → List TrafficObject
  | [] => [o]
  | p :: rest => if p.name = o.name then o :: rest else p :: o.putIn rest

namespace Scenario

/-- The ego vehicle stands at the origin and moves along the road. -/
def egoVehicle : TrafficObject :=
  let o := TrafficObject.ofKind .vehicle "ego"
  { o with
    constraints := o.constraints ++ [.and [.eq o.pos.l (.int 0), .eq o.pos.s (.int 0)]] ++
      match o.motion with
      | some m => [.and [.eq m.v.l (.int 0), m.v.s.gt (.int 0)]]
      | none => [] }

/-- The scenario with only the ego vehicle and a destination. -/
def basic (settings : ScenarioSettings) : Scenario :=
  ⟨settings, [], egoVehicle, [.ofKind .destination ""]⟩

/-- All objects, the ego vehicle first. -/
def objects (sc : Scenario) : List TrafficObject := sc.ego :: sc.others

/-- Adds an object, over one of the same name. -/
def add (sc : Scenario) (o : TrafficObject) : Scenario :=
  if sc.ego.name = o.name then { sc with ego := o }
  else { sc with others := o.putIn sc.others }

def has (sc : Scenario) (c : Capability) : Bool := sc.capabilities.contains c

/-- Installs a capability. A second time changes nothing. -/
def install (sc : Scenario) (c : Capability) : Scenario :=
  if sc.has c then sc
  else
    let sc := c.objects.foldl add sc
    { sc with capabilities := sc.capabilities ++ [c] }

/-- The scenario with the capabilities of a preset. -/
def ofPreset (preset : Preset) (settings : ScenarioSettings) : Scenario :=
  preset.capabilities.foldl install (basic settings)

def object? (sc : Scenario) (name : String) : Option TrafficObject :=
  sc.objects.find? fun o => o.name == name

/-- The first object of a kind, the ego vehicle apart. -/
def firstOf (sc : Scenario) (kind : ObjectKind) : Option TrafficObject :=
  sc.others.find? fun o => o.kind == kind

/-! ## Lane and road -/

def laneLeft : Term := .realConst "lane_left_width"

def laneRight : Term := .realConst "lane_right_width"

def roadLeft : Term := .realConst "road_left_width"

def roadRight : Term := .realConst "road_right_width"

/-- The lane of the ego vehicle. -/
def laneBoundary : Area := .corridor laneLeft laneRight

/-- The road. -/
def roadBoundary : Area := .corridor roadLeft roadRight

/-- The lane is at least 3.3 wide, the road at least 9.9 and wider than the lane on both sides. -/
def widthConstraints : List Term :=
  [.and [laneLeft.gt (.int 0), laneRight.gt (.int 0),
      (laneLeft + laneRight).ge (.real (mkRat 33 10))],
    roadLeft.gt laneLeft,
    roadRight.gt laneRight,
    .and [roadLeft.gt (.int 0), roadRight.gt (.int 0),
      (roadLeft + roadRight).ge (.real (mkRat 99 10))]]

/-! ## Invariants -/

/-- What a capability adds to the invariants: at an intersection the ego vehicle comes from way zero
and every vehicle from one of the ways. -/
def capabilityInvariants (sc : Scenario) : Capability → List Term
  | .intersection =>
    (sc.ego.lane.toList.map fun lane => .eq lane.wayId (.int 0)) ++
      ((sc.objects.filter fun o => o.kind == .vehicle).filterMap (·.lane)).map fun lane =>
        .and [lane.wayId.ge (.int 0), lane.wayId.lt (.int sc.settings.wayNum)]
  | .crosswalk => []
  | .trafficLight => []
  | .stopSign => []

/-- What holds in every situation: the widths, the constraints of all objects, and what the
capabilities add. -/
def invariants (sc : Scenario) : List Term :=
  widthConstraints ++ sc.objects.flatMap (·.constraints) ++
    sc.capabilities.flatMap sc.capabilityInvariants

/-! ## Names -/

/-- The names that an object gives, after its own name. -/
def featureSymbols (o : TrafficObject) : List (String × Value) :=
  [("", .object o), (".pos", .point o.pos), (".pos.l", .term o.pos.l), (".pos.s", .term o.pos.s),
      (".size", .point o.size), (".size.l", .term o.size.l), (".size.s", .term o.size.s),
      (".boundary", .area o.boundary), (".start_l", .term o.startL), (".end_l", .term o.endL),
      (".start_s", .term o.startS), (".end_s", .term o.endS)] ++
    (match o.motion with
      | some m =>
        [(".v", .point m.v), (".v.l", .term m.v.l), (".v.s", .term m.v.s),
          (".velocity", .term m.velocity), (".trajectory", .line m.trajectory)]
      | none => []) ++
    (match o.lane with
      | some lane =>
        [(".lane", .lane lane), (".lane.way_id", .term lane.wayId),
          (".lane.road_id", .term lane.roadId), (".lane.lane_id", .term lane.laneId),
          (".lane.turn", .term lane.turn)]
      | none => []) ++
    (match o.color with
      | some color => [(".color", .term color)]
      | none => []) ++
    (match o.arriveTime with
      | some t => [(".arrive_time", .term t)]
      | none => [])

/-- The names that an object gives. -/
def objectSymbols (o : TrafficObject) : List (String × Value) :=
  (featureSymbols o).map fun e => (o.name ++ e.1, e.2)

/-- The names that a scenario gives. -/
def symbols (sc : Scenario) : List (String × Value) :=
  [("ego_vehicle", .object sc.ego), ("lane_boundary", .area laneBoundary),
      ("road_boundary", .area roadBoundary),
      ("max_stop_deceleration", .term (.int sc.settings.maxStopDeceleration))] ++
    sc.objects.flatMap objectSymbols

end Scenario

end RoadPolicy
