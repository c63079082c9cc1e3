/-
The model of a scenario is not vacuous. One situation satisfies the invariants of every scenario that
can be built and the facts of its code policy: all objects of a kind have the same features, which is
possible because the name of a constant shows the kind of its object and the feature. The only way to
a contradiction is an intersection at which no ways meet.
-/
import Mathlib.Tactic
import RoadPolicy.Proofs.Formula.WellSorted
import RoadPolicy.Proofs.Policy.BindingParts

namespace RoadPolicy

/-- The sorts that the values of the constants have. -/
def Interpretation.signature (I : Interpretation) : Signature := fun name s => (I.value name).IsOf s

/-- The formula is true, and all its constants have values of their sorts. -/
def Interpretation.Allows (I : Interpretation) (t : Term) : Prop := t.IsFormula I.signature ∧ I.Satisfies t

/-- All formulas are true in one interpretation, which gives every constant a value of its sort. -/
def Satisfiable (ts : List Term) : Prop := ∃ I : Interpretation, ∀ t ∈ ts, I.Allows t

theorem Satisfiable.mono {ts us : List Term} (h : Satisfiable ts) (hsub : us ⊆ ts) : Satisfiable us := by
  obtain ⟨I, hI⟩ := h
  exact ⟨I, fun t ht => hI t (hsub ht)⟩

namespace Interpretation

variable {I : Interpretation} {a b : Term}

@[simp] theorem allows_and {ts : List Term} : I.Allows (.and ts) ↔ ∀ t ∈ ts, I.Allows t := by
  simp [Allows, forall_and]

@[simp] theorem allows_lt : I.Allows (a.lt b) ↔
    (a.IsNumber I.signature ∧ b.IsNumber I.signature) ∧ I.amount a < I.amount b := by simp [Allows]

@[simp] theorem allows_le : I.Allows (a.le b) ↔
    (a.IsNumber I.signature ∧ b.IsNumber I.signature) ∧ I.amount a ≤ I.amount b := by simp [Allows]

@[simp] theorem allows_gt : I.Allows (a.gt b) ↔
    (a.IsNumber I.signature ∧ b.IsNumber I.signature) ∧ I.amount b < I.amount a := by simp [Allows]

@[simp] theorem allows_ge : I.Allows (a.ge b) ↔
    (a.IsNumber I.signature ∧ b.IsNumber I.signature) ∧ I.amount b ≤ I.amount a := by simp [Allows]

theorem allows_eq (ha : a.IsNumber I.signature) (hb : b.IsNumber I.signature) :
    I.Allows (.eq a b) ↔ I.amount a = I.amount b :=
  (and_iff_right (ha.isFormula_eq hb)).trans (I.satisfies_eq_number ha hb)

end Interpretation

/-! ## Scenarios that can be built -/

/-- A scenario that comes about from the basic one by installing capabilities and adding objects. -/
inductive Scenario.Built (settings : ScenarioSettings) : Scenario → Prop
  | basic : Built settings (basic settings)
  | install {sc : Scenario} (c : Capability) : Built settings sc → Built settings (sc.install c)
  | add {sc : Scenario} (kind : ObjectKind) (id : String) :
    Built settings sc → Built settings (sc.add (.ofKind kind id))

namespace ObjectKind

/-- No label starts another one. -/
theorem label_start_free : ∀ k ∈ all, ∀ k' ∈ all, k.label.toList <+: k'.label.toList → k = k' := by decide

theorem mem_all (k : ObjectKind) : k ∈ all := by cases k <;> decide

theorem toList_objectName (kind : ObjectKind) (id : String) :
    ∃ rest, (kind.objectName id).toList = kind.label.toList ++ rest := by
  unfold objectName
  split
  · exact ⟨[], (List.append_nil _).symm⟩
  · exact ⟨'_' :: id.toList, by simp⟩

/-- The kind that a name starts with. -/
def ofStart? (name : List Char) : Option ObjectKind := all.find? fun k => k.label.toList.isPrefixOf name

theorem ofStart?_label (kind : ObjectKind) (rest : List Char) : ofStart? (kind.label.toList ++ rest) = some kind := by
  have hstart : kind.label.toList <+: kind.label.toList ++ rest := List.prefix_append ..
  rcases hfind : ofStart? (kind.label.toList ++ rest) with _ | k
  · have := List.find?_eq_none.1 hfind kind kind.mem_all
    simp at this
  · have hk := List.find?_some hfind
    rw [List.isPrefixOf_iff_prefix] at hk
    -- of two labels that start one name, one starts the other
    rcases List.prefix_or_prefix_of_prefix hk hstart with h | h
    · rw [label_start_free k k.mem_all kind kind.mem_all h]
    · rw [label_start_free kind kind.mem_all k k.mem_all h]

end ObjectKind

/-! ## The situation -/

/-- How the names of the constants of an object end. -/
def featureEndings : List String :=
  ["_pos_l", "_pos_s", "_size_l", "_size_s", "_v_l", "_v_s", "_lane_way_id", "_lane_road_id", "_lane_lane_id",
    "_lane_turn", "_color", "_arrive_time"]

/-- Half extents that the constraints of a kind allow. -/
def ObjectKind.halfExtents : ObjectKind → Rat × Rat
  | vehicle | destination => (2, 2)
  | pedestrian => (mkRat 1 2, mkRat 1 2)
  | crosswalk => (5, 2)
  | intersection => (5, 10)
  | trafficLight | stopSign | yieldSign => (1, 1)

/-- The amount of a feature of the objects of a kind. Crosswalks are ahead, all else stands at the
origin; what moves does so along the road. -/
def featureAmount (kind : ObjectKind) (ending : String) : Rat :=
  if ending = "_size_l" then kind.halfExtents.1
  else if ending = "_size_s" then kind.halfExtents.2
  else if ending = "_pos_s" then (if kind = .crosswalk then 5 else 0)
  else if ending = "_v_s" then 1
  else 0

/-- The values of the constants that belong to no object. -/
def commonValues : List (String × Datum) :=
  [("lane_left_width", .number 2), ("lane_right_width", .number 2), ("road_left_width", .number 5),
    ("road_right_width", .number 5), ("min_pass_s_distance_19", .number 0), ("stop_loose_l_distance_28", .number 6),
    ("stop_strict_l_distance_32", .number 4), ("stop_strict_l_distance_29", .number 4),
    ("max_stop_deceleration_31", .number 2), ("stop_deceleration.addr_12", .number 1),
    ("FindCrosswalks_3", .truth true), ("type_13", .number 3)]

/-- The amount of the feature that a name stands for, by its start and its end. -/
def amountOfName (name : List Char) : Rat :=
  match ObjectKind.ofStart? name, featureEndings.find? fun e => e.toList.isSuffixOf name with
  | some kind, some ending => featureAmount kind ending
  | _, _ => 0

/-- A situation that every scenario allows. -/
def commonSituation : Interpretation where
  value name := ((commonValues.find? (·.1 == name)).map (·.2)).getD (.number (amountOfName name.toList))
  divide x y := x / y

theorem ending_free : ∀ e ∈ featureEndings, ∀ f ∈ featureEndings, e.toList <:+ f.toList → e = f := by decide

theorem common_apart : ∀ c ∈ commonValues, ∀ e ∈ featureEndings, ¬ e.toList <:+ c.1.toList := by decide

theorem find?_ending {ending : String} (h : ending ∈ featureEndings) (start : List Char) :
    featureEndings.find? (fun e => e.toList.isSuffixOf (start ++ ending.toList)) = some ending := by
  have hend : ending.toList <:+ start ++ ending.toList := List.suffix_append ..
  rcases hfind : featureEndings.find? (fun e => e.toList.isSuffixOf (start ++ ending.toList)) with _ | e
  · have := List.find?_eq_none.1 hfind ending h
    simp at this
  · have he := List.find?_some hfind
    have hmem := List.mem_of_find?_eq_some hfind
    rw [List.isSuffixOf_iff_suffix] at he
    have hsame : e = ending := by
      rcases List.suffix_or_suffix_of_suffix he hend with h' | h'
      · exact ending_free e hmem ending h h'
      · exact (ending_free ending h e hmem h').symm
    rw [hfind, hsame]

/-- The features of an object depend only on its kind. -/
theorem value_feature (kind : ObjectKind) (id : String) {ending : String} (h : ending ∈ featureEndings) :
    commonSituation.value (kind.objectName id ++ ending) = .number (featureAmount kind ending) := by
  have hcommon : commonValues.find? (·.1 == kind.objectName id ++ ending) = none := by
    rw [List.find?_eq_none]
    intro c hc heq
    refine common_apart c hc ending h ?_
    rw [beq_iff_eq.1 heq, String.toList_append]
    exact List.suffix_append ..
  obtain ⟨rest, hname⟩ := kind.toList_objectName id
  show ((commonValues.find? (·.1 == kind.objectName id ++ ending)).map (·.2)).getD (.number (amountOfName _)) = _
  rw [hcommon, String.toList_append]
  unfold amountOfName
  rw [find?_ending h, hname, List.append_assoc, ObjectKind.ofStart?_label]
  rfl

section

variable (kind : ObjectKind) (id : String) {ending : String}

theorem isNumber_feature (h : ending ∈ featureEndings) :
    (Term.realConst (kind.objectName id ++ ending)).IsNumber commonSituation.signature := by
  refine ⟨?_, TermSort.noConfusion⟩
  show (commonSituation.value (kind.objectName id ++ ending)).IsOf .real
  rw [value_feature kind id h]
  trivial

theorem amount_feature (h : ending ∈ featureEndings) :
    commonSituation.amount (.realConst (kind.objectName id ++ ending)) = featureAmount kind ending := by
  show ((commonSituation.value (kind.objectName id ++ ending)).asSort .real).amount = _
  rw [value_feature kind id h]
  rfl

end

/-! ## Objects -/

namespace TrafficObject

variable (kind : ObjectKind) (id : String)

@[simp] theorem kind_ofKind : (ofKind kind id).kind = kind := rfl

theorem pos_ofKind : (ofKind kind id).pos =
    ⟨.realConst (kind.objectName id ++ "_pos_l"), .realConst (kind.objectName id ++ "_pos_s")⟩ := by
  show Point.named (kind.objectName id ++ "_pos") = _
  rw [Point.named, String.append_assoc, String.append_assoc]
  rfl

theorem size_ofKind : (ofKind kind id).size =
    ⟨.realConst (kind.objectName id ++ "_size_l"), .realConst (kind.objectName id ++ "_size_s")⟩ := by
  show Point.named (kind.objectName id ++ "_size") = _
  rw [Point.named, String.append_assoc, String.append_assoc]
  rfl

theorem named_v (name : String) :
    Point.named (name ++ "_v") = ⟨.realConst (name ++ "_v_l"), .realConst (name ++ "_v_s")⟩ := by
  rw [Point.named, String.append_assoc, String.append_assoc]
  rfl

theorem motion_ofKind : (ofKind kind id).motion = if kind.isMobile then
    some (.ofVelocity (ofKind kind id).pos
      ⟨.realConst (kind.objectName id ++ "_v_l"), .realConst (kind.objectName id ++ "_v_s")⟩) else none := by
  rw [← named_v]
  rfl

/-- The constraints of an object, by the constants that it is made of. -/
theorem constraints_ofKind : (ofKind kind id).constraints =
    .and [(ofKind kind id).size.l.gt (.int 0), (ofKind kind id).size.s.gt (.int 0)] ::
      (ofKind kind id).kindConstraints := rfl

/-- The amounts of the features that constraints mention. -/
theorem amounts_ofKind :
    let amount ending := commonSituation.amount (.realConst (kind.objectName id ++ ending))
    amount "_pos_l" = 0 ∧ amount "_pos_s" = (if kind = .crosswalk then 5 else 0) ∧
      amount "_size_l" = kind.halfExtents.1 ∧ amount "_size_s" = kind.halfExtents.2 ∧
      amount "_v_l" = 0 ∧ amount "_v_s" = 1 ∧ amount "_lane_way_id" = 0 := by
  refine ⟨?_, ?_, ?_, ?_, ?_, ?_, ?_⟩ <;> exact (amount_feature kind id (by decide)).trans (by simp [featureAmount])

theorem numbers_ofKind :
    let IsNumber ending := (Term.realConst (kind.objectName id ++ ending)).IsNumber commonSituation.signature
    IsNumber "_pos_l" ∧ IsNumber "_pos_s" ∧ IsNumber "_size_l" ∧ IsNumber "_size_s" ∧ IsNumber "_v_l" ∧
      IsNumber "_v_s" ∧ IsNumber "_lane_way_id" := by
  refine ⟨?_, ?_, ?_, ?_, ?_, ?_, ?_⟩ <;> exact isNumber_feature kind id (by decide)

theorem allows_constraints : ∀ t ∈ (ofKind kind id).constraints, commonSituation.Allows t := by
  have hamounts := amounts_ofKind kind id
  have hnumbers := numbers_ofKind kind id
  have hhalf : mkRat 1 2 = (1 / 2 : Rat) := by norm_num
  rw [constraints_ofKind]
  cases kind <;>
    norm_num [kindConstraints, hasSize, speedLimit, startL, endL, size_ofKind, pos_ofKind, motion_ofKind, hamounts,
      hnumbers, Interpretation.allows_eq, ObjectKind.isMobile, ObjectKind.halfExtents, Motion.ofVelocity, hhalf]

theorem wayId_of_lane {lane : Lane} (h : (ofKind kind id).lane = some lane) :
    lane.wayId = .realConst (kind.objectName id ++ "_lane_way_id") := by
  have hlane : (ofKind kind id).lane = if kind.hasLane then some (.named (kind.objectName id ++ "_lane")) else none := rfl
  rw [hlane] at h
  split at h
  · cases h
    rw [Lane.named, String.append_assoc]
    rfl
  · cases h

end TrafficObject

namespace Scenario

theorem allows_ego : ∀ t ∈ egoVehicle.constraints, commonSituation.Allows t := by
  have hamounts := TrafficObject.amounts_ofKind .vehicle "ego"
  have hnumbers := TrafficObject.numbers_ofKind .vehicle "ego"
  have hconstraints : egoVehicle.constraints = (TrafficObject.ofKind .vehicle "ego").constraints ++
      [.and [.eq (TrafficObject.ofKind .vehicle "ego").pos.l (.int 0),
        .eq (TrafficObject.ofKind .vehicle "ego").pos.s (.int 0)]] ++
      [.and [.eq (Point.named (ObjectKind.vehicle.objectName "ego" ++ "_v")).l (.int 0),
        (Point.named (ObjectKind.vehicle.objectName "ego" ++ "_v")).s.gt (.int 0)]] := rfl
  rw [hconstraints, List.forall_mem_append, List.forall_mem_append]
  refine ⟨⟨TrafficObject.allows_constraints .vehicle "ego", ?_⟩, ?_⟩
  · simp [TrafficObject.pos_ofKind, hamounts, hnumbers, Interpretation.allows_eq]
  · simp [TrafficObject.named_v, hamounts, hnumbers, Interpretation.allows_eq]

theorem isNumber_common (name : String) {q : Rat} (h : commonSituation.value name = .number q) :
    (Term.realConst name).IsNumber commonSituation.signature ∧ commonSituation.amount (.realConst name) = q := by
  refine ⟨⟨?_, TermSort.noConfusion⟩, ?_⟩
  · show (commonSituation.value name).IsOf .real
    rw [h]
    trivial
  · show ((commonSituation.value name).asSort .real).amount = q
    rw [h]
    rfl

theorem allows_widths : ∀ t ∈ widthConstraints, commonSituation.Allows t := by
  have hll := isNumber_common "lane_left_width" (q := 2) rfl
  have hlr := isNumber_common "lane_right_width" (q := 2) rfl
  have hrl := isNumber_common "road_left_width" (q := 5) rfl
  have hrr := isNumber_common "road_right_width" (q := 5) rfl
  have hlane : mkRat 33 10 = (33 / 10 : Rat) := by norm_num
  have hroad : mkRat 99 10 = (99 / 10 : Rat) := by norm_num
  norm_num [widthConstraints, laneLeft, laneRight, roadLeft, roadRight, hll, hlr, hrl, hrr, hlane, hroad]

end Scenario

/-! ## The facts of the code policy -/

namespace CodeBindings

theorem allows_param {name : String} {n : Int} (h : commonSituation.value name = .number n) :
    commonSituation.Allows (.eq (.realConst name) (.int n)) := by
  obtain ⟨hnumber, hamount⟩ := Scenario.isNumber_common name h
  rw [Interpretation.allows_eq hnumber (Term.isNumber_int n), hamount]
  rfl

/-- Facts come only from the parameters at a crosswalk. -/
def crosswalkFacts : List Term :=
  [.eq (.realConst "min_pass_s_distance_19") (.int 0), .eq (.realConst "stop_loose_l_distance_28") (.int 6),
    .eq (.realConst "stop_strict_l_distance_32") (.int 4), .eq (.realConst "stop_strict_l_distance_29") (.int 4),
    .eq (.realConst "max_stop_deceleration_31") (.int 2), .eq (.realConst "stop_deceleration.addr_12") (.int 1),
    .eq (.boolConst "FindCrosswalks_3") (.bool true), .eq (.realConst "type_13") (.int 3)]

theorem facts_crosswalk (ego ped cw : TrafficObject) (names : NameSupply) :
    ((crosswalk ego ped cw).run names).1.facts = crosswalkFacts := by
  have hfacts : ∀ onCrosswalk crossing onRoad,
      (crosswalkWith ego ped cw onCrosswalk crossing onRoad).facts = crosswalkFacts := by
    intro onCrosswalk crossing onRoad
    cases crossing <;> simp [crosswalkWith, crosswalkFacts]
  rw [run_crosswalk]
  exact hfacts _ _ _

theorem facts_always (sc : Scenario) : (always sc).facts = [] := by
  unfold always
  cases sc.firstOf .destination <;> rfl

theorem facts_atLight (sc : Scenario) : (atLight sc).facts = [] := by
  unfold atLight
  split
  · unfold trafficLight
    dsimp only
    cases sc.ego.motion <;> rfl
  · rfl

theorem facts_ofScenario (sc : Scenario) (names : NameSupply) :
    ((ofScenario sc).run names).1.facts ⊆ crosswalkFacts := by
  have hcrosswalk : ((atCrosswalk sc).run names).1.facts ⊆ crosswalkFacts := by
    unfold atCrosswalk
    split
    · rw [facts_crosswalk]
      exact fun _ => id
    · exact List.nil_subset _
  rw [run_ofScenario, facts_append, facts_append, facts_always, facts_atLight, List.append_nil]
  exact hcrosswalk

theorem allows_crosswalkFacts : ∀ t ∈ crosswalkFacts, commonSituation.Allows t := by
  have hfound : commonSituation.Allows (.eq (.boolConst "FindCrosswalks_3") (.bool true)) := by
    have hvalue : commonSituation.value "FindCrosswalks_3" = .truth true := rfl
    refine ⟨Term.isFormula_eq ?_ trivial Iff.rfl, ?_⟩
    · show (commonSituation.value "FindCrosswalks_3").IsOf .bool
      rw [hvalue]
      trivial
    · rw [Interpretation.satisfies_eq]
      show (commonSituation.value "FindCrosswalks_3").asSort .bool = .truth true
      rw [hvalue]
      rfl
  simp only [crosswalkFacts, List.forall_mem_cons]
  exact ⟨allows_param rfl, allows_param rfl, allows_param rfl, allows_param rfl, allows_param rfl, allows_param rfl, hfound,
    allows_param rfl, List.forall_mem_nil _⟩

end CodeBindings

/-! ## Every scenario -/

theorem TrafficObject.mem_putIn {o p : TrafficObject} {os : List TrafficObject} (h : p ∈ o.putIn os) :
    p = o ∨ p ∈ os := by
  induction os with
  | nil => exact Or.inl (List.mem_singleton.1 h)
  | cons q rest ih =>
    unfold putIn at h
    split at h
    · rcases List.mem_cons.1 h with rfl | hp
      · exact Or.inl rfl
      · exact Or.inr (List.mem_cons_of_mem _ hp)
    · rcases List.mem_cons.1 h with rfl | hp
      · exact Or.inr List.mem_cons_self
      · exact (ih hp).imp_right (List.mem_cons_of_mem _)

theorem ObjectKind.objectName_eq_ego {kind : ObjectKind} {id : String} (h : kind.objectName id = "vehicle_ego") :
    kind = .vehicle ∧ id = "ego" := by
  obtain ⟨rest, hname⟩ := kind.toList_objectName id
  have hkind : ofStart? "vehicle_ego".toList = some kind := by
    rw [← h, hname]
    exact ofStart?_label kind rest
  obtain rfl : ObjectKind.vehicle = kind := Option.some.inj hkind
  refine ⟨rfl, ?_⟩
  unfold objectName at h
  split at h
  · exact absurd h (by decide)
  · have hlist := congrArg String.toList h
    rw [String.toList_append, String.toList_append] at hlist
    exact String.toList_inj.1 (List.append_cancel_left hlist)

namespace Scenario

variable {settings : ScenarioSettings} {sc : Scenario}

/-- All objects are as their kind prescribes, except that the ego vehicle may have further constraints. -/
structure Regular (settings : ScenarioSettings) (sc : Scenario) : Prop where
  settings_eq : sc.settings = settings
  ego_eq : sc.ego = egoVehicle ∨ sc.ego = .ofKind .vehicle "ego"
  others_eq : ∀ o ∈ sc.others, ∃ kind id, o = .ofKind kind id

theorem Regular.name_ego (h : sc.Regular settings) : sc.ego.name = "vehicle_ego" := by
  rcases h.ego_eq with heq | heq <;> rw [heq] <;> rfl

theorem Regular.add (h : sc.Regular settings) (kind : ObjectKind) (id : String) :
    (sc.add (.ofKind kind id)).Regular settings := by
  unfold Scenario.add
  split
  next hname =>
    -- only the ego vehicle itself has the name of the ego vehicle
    obtain ⟨rfl, rfl⟩ := ObjectKind.objectName_eq_ego (hname.symm.trans h.name_ego)
    exact ⟨h.settings_eq, Or.inr rfl, h.others_eq⟩
  next =>
    refine ⟨h.settings_eq, h.ego_eq, fun o ho => ?_⟩
    rcases TrafficObject.mem_putIn ho with rfl | ho
    · exact ⟨kind, id, rfl⟩
    · exact h.others_eq o ho

theorem Regular.addAll (h : sc.Regular settings) {os : List TrafficObject}
    (hos : ∀ o ∈ os, ∃ kind id, o = .ofKind kind id) : (os.foldl Scenario.add sc).Regular settings := by
  induction os generalizing sc with
  | nil => exact h
  | cons o os ih =>
    obtain ⟨⟨kind, id, heq⟩, hrest⟩ := List.forall_mem_cons.1 hos
    rw [List.foldl_cons, heq]
    exact ih (h.add kind id) hrest

theorem Regular.install (h : sc.Regular settings) (c : Capability) : (sc.install c).Regular settings := by
  have hkinds : ∀ o ∈ c.objects, ∃ kind id, o = TrafficObject.ofKind kind id := by
    cases c <;> simp [Capability.objects]
  unfold Scenario.install
  split
  · exact h
  · have hsc := h.addAll hkinds
    exact ⟨hsc.settings_eq, hsc.ego_eq, hsc.others_eq⟩

theorem Built.regular (h : sc.Built settings) : sc.Regular settings := by
  induction h with
  | basic => exact ⟨rfl, Or.inl rfl, fun o ho => ⟨.destination, "", List.mem_singleton.1 ho⟩⟩
  | install c _ ih => exact ih.install c
  | add kind id _ ih => exact ih.add kind id

theorem Regular.lane_ego (h : sc.Regular settings) :
    sc.ego.kind = .vehicle ∧ sc.ego.lane = some (.named "vehicle_ego_lane") := by
  rcases h.ego_eq with heq | heq <;> rw [heq] <;> exact ⟨rfl, rfl⟩

theorem Regular.objects_eq (h : sc.Regular settings) {o : TrafficObject} (ho : o ∈ sc.objects) :
    o = egoVehicle ∨ ∃ kind id, o = .ofKind kind id := by
  rcases List.mem_cons.1 ho with rfl | ho
  · exact h.ego_eq.imp_right fun heq => ⟨_, _, heq⟩
  · exact Or.inr (h.others_eq o ho)

/-- In the common situation all vehicles come from way zero. -/
theorem Regular.wayId_zero (h : sc.Regular settings) {o : TrafficObject} (ho : o ∈ sc.objects) {lane : Lane}
    (hlane : o.lane = some lane) :
    lane.wayId.IsNumber commonSituation.signature ∧ commonSituation.amount lane.wayId = 0 := by
  have hkind : ∃ kind id, (TrafficObject.ofKind kind id).lane = some lane := by
    rcases h.objects_eq ho with rfl | ⟨kind, id, rfl⟩
    · exact ⟨.vehicle, "ego", hlane⟩
    · exact ⟨kind, id, hlane⟩
  obtain ⟨kind, id, hlane⟩ := hkind
  rw [TrafficObject.wayId_of_lane kind id hlane]
  exact ⟨isNumber_feature kind id (by decide), (TrafficObject.amounts_ofKind kind id).2.2.2.2.2.2⟩

theorem Regular.allows_capability (h : sc.Regular settings) {c : Capability}
    (hways : c = .intersection → 1 ≤ settings.wayNum) :
    ∀ t ∈ sc.capabilityInvariants c, commonSituation.Allows t := by
  intro t ht
  cases c with
  | crosswalk => exact absurd ht List.not_mem_nil
  | trafficLight => exact absurd ht List.not_mem_nil
  | stopSign => exact absurd ht List.not_mem_nil
  | intersection =>
    have hways := hways rfl
    rcases List.mem_append.1 ht with ht | ht
    · obtain ⟨lane, hlane, rfl⟩ := List.mem_map.1 ht
      obtain ⟨hnumber, hzero⟩ := h.wayId_zero List.mem_cons_self (Option.mem_toList.1 hlane)
      rw [Interpretation.allows_eq hnumber (Term.isNumber_int 0), hzero]
      rfl
    · obtain ⟨lane, hlane, rfl⟩ := List.mem_map.1 ht
      obtain ⟨o, ho, hlane⟩ := List.mem_filterMap.1 hlane
      obtain ⟨hnumber, hzero⟩ := h.wayId_zero (List.mem_of_mem_filter ho) hlane
      simp only [Interpretation.allows_and, List.forall_mem_cons, Interpretation.allows_ge, Interpretation.allows_lt, hzero,
        h.settings_eq]
      refine ⟨⟨⟨hnumber, Term.isNumber_int 0⟩, le_refl 0⟩, ⟨⟨hnumber, Term.isNumber_int _⟩, ?_⟩, List.forall_mem_nil _⟩
      show (0 : Rat) < ((settings.wayNum : Int) : Rat)
      exact_mod_cast hways

theorem Regular.allows_invariants (h : sc.Regular settings)
    (hways : sc.has .intersection = true → 1 ≤ settings.wayNum) :
    ∀ t ∈ sc.invariants, commonSituation.Allows t := by
  intro t ht
  rcases List.mem_append.1 ht with ht | ht
  · rcases List.mem_append.1 ht with ht | ht
    · exact allows_widths t ht
    · obtain ⟨o, ho, ht⟩ := List.mem_flatMap.1 ht
      rcases h.objects_eq ho with rfl | ⟨kind, id, rfl⟩
      · exact allows_ego t ht
      · exact TrafficObject.allows_constraints kind id t ht
  · obtain ⟨c, hc, ht⟩ := List.mem_flatMap.1 ht
    refine h.allows_capability (fun hkind => hways ?_) t ht
    rw [← hkind]
    exact List.contains_iff_mem.2 hc

/-- At an intersection the ego vehicle comes from one of the ways. -/
theorem Regular.one_le_wayNum (h : sc.Regular settings) (hsat : Satisfiable sc.invariants)
    (hint : sc.has .intersection = true) : 1 ≤ settings.wayNum := by
  obtain ⟨I, hI⟩ := hsat
  obtain ⟨hkind, hlane⟩ := h.lane_ego
  have hego : sc.ego ∈ sc.objects.filter fun o => o.kind == .vehicle :=
    List.mem_filter.2 ⟨List.mem_cons_self, by rw [hkind]; rfl⟩
  have hmem := List.mem_append_right (sc.ego.lane.toList.map fun lane => Term.eq lane.wayId (.int 0))
    (List.mem_map_of_mem (f := fun lane : Lane => Term.and [lane.wayId.ge (.int 0), lane.wayId.lt (.int sc.settings.wayNum)])
      (List.mem_filterMap.2 ⟨sc.ego, hego, hlane⟩))
  have hallowed := hI _ (List.mem_append_right _
    (List.mem_flatMap.2 ⟨.intersection, List.contains_iff_mem.1 hint, hmem⟩))
  simp only [Interpretation.allows_and, List.forall_mem_cons, Interpretation.allows_ge, Interpretation.allows_lt,
    h.settings_eq] at hallowed
  have hpos : (0 : Rat) < ((settings.wayNum : Int) : Rat) := lt_of_le_of_lt hallowed.1.2 hallowed.2.1.2
  exact_mod_cast hpos

/-- A scenario that was built, with the facts of its code policy, is satisfiable unless it has an
intersection of no ways; so the facts never rule out what the scenario allows. -/
theorem satisfiable_iff_ways (h : sc.Built settings) (names : NameSupply) :
    (Satisfiable (sc.invariants ++ ((CodeBindings.ofScenario sc).run names).1.facts) ↔
      sc.has .intersection = false ∨ 1 ≤ settings.wayNum) ∧
    (Satisfiable sc.invariants →
      Satisfiable (sc.invariants ++ ((CodeBindings.ofScenario sc).run names).1.facts)) := by
  have hif : (sc.has .intersection = true → 1 ≤ settings.wayNum) →
      Satisfiable (sc.invariants ++ ((CodeBindings.ofScenario sc).run names).1.facts) := by
    intro hways
    refine ⟨commonSituation, List.forall_mem_append.2 ⟨h.regular.allows_invariants hways, fun t ht => ?_⟩⟩
    exact CodeBindings.allows_crosswalkFacts t (CodeBindings.facts_ofScenario sc names ht)
  refine ⟨⟨fun hsat => ?_, fun hways => hif fun hint => ?_⟩, fun hsat => hif (h.regular.one_le_wayNum hsat)⟩
  · rw [or_iff_not_imp_left, Bool.not_eq_false]
    exact h.regular.one_le_wayNum (hsat.mono (List.subset_append_left _ _))
  · rcases hways with hnone | hways
    · exact absurd hint (by rw [hnone]; decide)
    · exact hways

/-- The ego vehicle may be added anew; with no ways at all, the intersection is the contradiction. -/
theorem satisfiable_iff_ways_at_crosswalk :
    let facts sc := ((CodeBindings.ofScenario sc).run .initial).1.facts
    let sc := (((basic {}).install .crosswalk).install .intersection).add (.ofKind .vehicle "ego")
    let empty := (basic ⟨0, 10⟩).install .intersection
    Satisfiable (sc.invariants ++ facts sc) ∧ ¬ Satisfiable (empty.invariants ++ facts empty) := by
  refine ⟨(satisfiable_iff_ways (((Built.basic.install _).install _).add _ _) .initial).1.2 (Or.inr (by decide)), ?_⟩
  rw [(satisfiable_iff_ways (Built.basic.install .intersection) .initial).1]
  decide

end Scenario

end RoadPolicy
