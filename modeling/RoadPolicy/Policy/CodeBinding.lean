/-
The names that an extracted code policy refers to, bound to terms of a scenario. A parameter of the
code is a constant, and a fact says which value it has.
-/
import RoadPolicy.Road.Encounter
import RoadPolicy.Road.Scenario

namespace RoadPolicy

/-- Names for the policy of the code, and facts for the model. -/
structure CodeBindings where
  symbols : List (String × Value)
  facts : List Term

namespace CodeBindings

instance : Append CodeBindings := ⟨fun a b => ⟨a.symbols ++ b.symbols, a.facts ++ b.facts⟩⟩

def none : CodeBindings := ⟨[], []⟩

/-- A name for a value. -/
def bind (name : String) (v : Value) : CodeBindings := ⟨[(name, v)], []⟩

/-- A name for a term. -/
def bindTerm (name : String) (t : Term) : CodeBindings := bind name (.term t)

/-- A constant of a given value. -/
def fixed (c value : Term) (name : String) : CodeBindings := ⟨[(name, .term c)], [.eq c value]⟩

/-- A parameter with a numeric value. -/
def param (name : String) (value : Int) : CodeBindings :=
  fixed (.realConst name) (.int value) name

/-- What the code knows of the destination. The lateral bounds of nearness contradict each other, so
the code never takes itself to be near. -/
def destination (ego : TrafficObject) : Option TrafficObject → CodeBindings
  | some dest =>
    let ds := dest.pos.s - ego.pos.s
    let dl := dest.pos.l - ego.pos.l
    bindTerm "is_near_destination"
      (.and [ds.lt (.int 10), ds.gt (.int (-10)), dl.lt (.int 10), dl.gt (.int 10)])
  | .none => none

/-- What the code knows of a pedestrian at a crosswalk. -/
def crosswalk (ego ped cw : TrafficObject) : Naming CodeBindings := do
  let onCrosswalk ← meets ped.boundary.contains cw.boundary.contains
  let crossing ←
    match Encounter.cross.formula ego ped with
    | some formula => bindTerm "IsEmpty_26" <$> formula
    | .none => pure none
  let onRoad ← meets ped.boundary.contains Scenario.roadBoundary.contains
  return bindTerm "end_s_15" ego.endS ++ bindTerm "end_s_17" cw.endS ++
    param "min_pass_s_distance_19" 0 ++ bindTerm "IsPointIn_19" onCrosswalk ++
    bindTerm "min_24" ped.pos.l.abs ++ param "stop_loose_l_distance_28" 6 ++
    param "stop_strict_l_distance_32" 4 ++ param "stop_strict_l_distance_29" 4 ++ crossing ++
    param "max_stop_deceleration_31" 2 ++ param "stop_deceleration.addr_12" 1 ++
    fixed (.boolConst "FindCrosswalks_3") (.bool true) "FindCrosswalks_3" ++
    bindTerm "IsOnRoad_25" onRoad ++ bindTerm "s_30" ped.pos.s ++
    bindTerm "start_s_14" ego.startS ++ param "type_13" 3

/-- What the code knows of the traffic light ahead. -/
def trafficLight (sc : Scenario) (light : TrafficObject) : CodeBindings :=
  let ego := sc.ego
  bindTerm "start_s60_33" light.startS ++ bindTerm "end_s_19" ego.endS ++
    bindTerm "end_s_21" light.endS ++ bindTerm "start_s_20" ego.startS ++
    bind "color_35" (.object light) ++
    bindTerm "max_stop_deceleration_38" (.int sc.settings.maxStopDeceleration) ++
    match ego.motion with
    | some m =>
      bindTerm "GetADCStopDeceleration_37" (m.velocity / .int 2 / (light.startS - ego.endS))
    | .none => none

/-- The names that a code policy can use in a scenario. -/
def ofScenario (sc : Scenario) : Naming CodeBindings := do
  let always := destination sc.ego (sc.firstOf .destination) ++
    bindTerm "has_passed_destination" (.bool false)
  let atCrosswalk ←
    match sc.has .crosswalk, sc.firstOf .pedestrian, sc.firstOf .crosswalk with
    | true, some ped, some cw => crosswalk sc.ego ped cw
    | _, _, _ => pure none
  let atLight :=
    match sc.has .trafficLight, sc.object? "traffic_light_self" with
    | true, some light => trafficLight sc light
    | _, _ => none
  return always ++ atCrosswalk ++ atLight

end CodeBindings

end RoadPolicy
