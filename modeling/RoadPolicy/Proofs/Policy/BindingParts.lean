/-
The bindings of a code policy, part by part: which names and facts each part brings, and in which
order the parts take fresh names.
-/
import Mathlib.Tactic
import RoadPolicy.Policy.CodeBinding

namespace RoadPolicy

namespace CodeBindings

/-! ## Names and facts -/

section

variable (a b : CodeBindings) (name : String) (v : Value) (t c : Term) (n : Int)

@[simp] theorem symbols_append : (a ++ b).symbols = a.symbols ++ b.symbols := rfl

@[simp] theorem facts_append : (a ++ b).facts = a.facts ++ b.facts := rfl

@[simp] theorem symbols_none : none.symbols = [] := rfl

@[simp] theorem facts_none : none.facts = [] := rfl

@[simp] theorem symbols_bind : (bind name v).symbols = [(name, v)] := rfl

@[simp] theorem facts_bind : (bind name v).facts = [] := rfl

@[simp] theorem symbols_bindTerm : (bindTerm name t).symbols = [(name, .term t)] := rfl

@[simp] theorem facts_bindTerm : (bindTerm name t).facts = [] := rfl

@[simp] theorem symbols_fixed : (fixed c t name).symbols = [(name, .term c)] := rfl

@[simp] theorem facts_fixed : (fixed c t name).facts = [.eq c t] := rfl

@[simp] theorem symbols_param : (param name n).symbols = [(name, .term (.realConst name))] := rfl

@[simp] theorem facts_param : (param name n).facts = [.eq (.realConst name) (.int n)] := rfl

end

/-! ## Parts -/

/-- What the code knows of a pedestrian at a crosswalk, given the formulas that take fresh names. -/
def crosswalkWith (ego ped cw : TrafficObject) (onCrosswalk : Term) (crossing : Option Term) (onRoad : Term) :
    CodeBindings :=
  bindTerm "end_s_15" ego.endS ++ bindTerm "end_s_17" cw.endS ++
    param "min_pass_s_distance_19" 0 ++ bindTerm "IsPointIn_19" onCrosswalk ++
    bindTerm "min_24" ped.pos.l.abs ++ param "stop_loose_l_distance_28" 6 ++
    param "stop_strict_l_distance_32" 4 ++ param "stop_strict_l_distance_29" 4 ++
    crossing.elim none (bindTerm "IsEmpty_26") ++
    param "max_stop_deceleration_31" 2 ++ param "stop_deceleration.addr_12" 1 ++
    fixed (.boolConst "FindCrosswalks_3") (.bool true) "FindCrosswalks_3" ++
    bindTerm "IsOnRoad_25" onRoad ++ bindTerm "s_30" ped.pos.s ++
    bindTerm "start_s_14" ego.startS ++ param "type_13" 3

/-- The meeting of two paths, if both objects move. -/
def pathsMeet (ego ped : TrafficObject) : Naming (Option Term) :=
  match Encounter.cross.formula ego ped with
  | some formula => some <$> formula
  | .none => pure .none

theorem run_crosswalk (ego ped cw : TrafficObject) (names : NameSupply) :
    (crosswalk ego ped cw).run names =
      let (onCrosswalk, names) := (meets ped.boundary.contains cw.boundary.contains).run names
      let (crossing, names) := (pathsMeet ego ped).run names
      let (onRoad, names) := (meets ped.boundary.contains Scenario.roadBoundary.contains).run names
      (crosswalkWith ego ped cw onCrosswalk crossing onRoad, names) := by
  unfold crosswalk pathsMeet
  cases Encounter.cross.formula ego ped <;> rfl

/-- What the code knows in every scenario. -/
def always (sc : Scenario) : CodeBindings :=
  destination sc.ego (sc.firstOf .destination) ++ bindTerm "has_passed_destination" (.bool false)

/-- What the code knows if there is a crosswalk. -/
def atCrosswalk (sc : Scenario) : Naming CodeBindings :=
  match sc.has .crosswalk, sc.firstOf .pedestrian, sc.firstOf .crosswalk with
  | true, some ped, some cw => crosswalk sc.ego ped cw
  | _, _, _ => pure none

/-- What the code knows if there is a traffic light. -/
def atLight (sc : Scenario) : CodeBindings :=
  match sc.has .trafficLight, sc.object? "traffic_light_self" with
  | true, some light => trafficLight sc light
  | _, _ => none

/-- Only a crosswalk takes fresh names. -/
theorem run_ofScenario (sc : Scenario) (names : NameSupply) :
    (ofScenario sc).run names =
      (always sc ++ ((atCrosswalk sc).run names).1 ++ atLight sc, ((atCrosswalk sc).run names).2) := by
  unfold ofScenario atCrosswalk
  rcases sc.has .crosswalk with _ | _ <;> rcases sc.firstOf .pedestrian with _ | ped <;>
    rcases sc.firstOf .crosswalk with _ | cw <;> rfl

end CodeBindings

end RoadPolicy
