/-
Reports undo the naming of objects. A constant of an object is named by the kind, the id and a field, and its
value is found in a report under just these three, whatever the id is made of, as long as that is letters and
digits. What belongs to no listed object stands among the common values: destinations and intersections, lane
and road, and the parameters of the code.
-/
import RoadPolicy.Proofs.Check.Filing
import RoadPolicy.Proofs.Policy.ScenarioNames

namespace RoadPolicy

/-! ## Fields -/

/-- The fields that objects can have. -/
def fieldNames : List String :=
  ["pos_l", "pos_s", "size_l", "size_s", "v_l", "v_s", "lane_way_id", "lane_road_id", "lane_lane_id", "lane_turn",
    "color", "arrive_time"]

theorem featureEndings_eq : featureEndings = fieldNames.map ("_" ++ ·) := by decide

theorem fieldNames_plain : ∀ field ∈ fieldNames, field ≠ "" ∧ '\n' ∉ field.toList := by decide

/-- A constant of an object is the name of the object, an underscore and a field. -/
theorem TrafficObject.exists_field {kind : ObjectKind} {id c : String} (hc : c ∈ (ofKind kind id).constants) :
    ∃ field ∈ fieldNames, c = kind.objectName id ++ "_" ++ field := by
  obtain ⟨e, he, rfl⟩ := constants_named (selfNamed_ofKind kind id) c hc
  rw [featureEndings_eq, List.mem_map] at he
  obtain ⟨field, hfield, rfl⟩ := he
  exact ⟨field, hfield, (String.append_assoc ..).symm⟩

/-! ## Slots of constants -/

theorem ObjectKind.objectName_of_ne {id : String} (h : id ≠ "") (kind : ObjectKind) :
    kind.objectName id = kind.label ++ "_" ++ id := if_neg fun hid => h (String.isEmpty_iff.1 hid)

/-- The fields of objects of the listed kinds are filed under kind and id. -/
theorem filedAt_field {kind : ObjectKind} (hkind : kind ∈ reportedKinds) {id : String} (hid : id ≠ "")
    (halnum : ∀ ch ∈ id.toList, ch.isAlphanum = true) {field : String} (hfield : field ∈ fieldNames) :
    FiledAt (kind.objectName id ++ "_" ++ field) (.field ⟨kind, id, field⟩) :=
  .field ⟨hkind, ⟨hid, halnum⟩, fieldNames_plain field hfield, by rw [kind.objectName_of_ne hid]⟩

/-- A name that starts with the label of a kind that is not listed is common. -/
theorem filedAt_common_of_label {kind : ObjectKind} (hkind : kind ∉ reportedKinds) {c : String}
    (hstart : kind.label.toList <+: c.toList) : FiledAt c (.common c) := by
  refine .common fun p hp => hkind ?_
  have hlabel : p.kind.label.toList <+: c.toList := hp.toList_eq ▸ List.prefix_append ..
  -- of two labels that start one name, one starts the other, and then they are the same
  have hsame : p.kind = kind := by
    rcases List.prefix_or_prefix_of_prefix hlabel hstart with h | h
    · exact ObjectKind.label_start_free _ p.kind.mem_all _ kind.mem_all h
    · exact (ObjectKind.label_start_free _ kind.mem_all _ p.kind.mem_all h).symm
  exact hsame ▸ hp.kind

theorem filedAt_common_of_kind {kind : ObjectKind} (hkind : kind ∉ reportedKinds) {id c : String}
    (hc : c ∈ (TrafficObject.ofKind kind id).constants) : FiledAt c (.common c) := by
  obtain ⟨field, -, rfl⟩ := TrafficObject.exists_field hc
  obtain ⟨rest, hname⟩ := kind.toList_objectName id
  refine filedAt_common_of_label hkind ?_
  rw [String.toList_append, String.toList_append, hname, List.append_assoc, List.append_assoc]
  exact List.prefix_append ..

/-- The names of the parameters of the code. -/
def parameterNames : List String := CodeBindings.crosswalkFacts.flatMap Term.constNames

theorem mem_parameterNames {sc : Scenario} {names : NameSupply} {fact : Term} {c : String}
    (hfact : fact ∈ ((CodeBindings.ofScenario sc).run names).1.facts) (hc : c ∈ fact.constNames) : c ∈ parameterNames :=
  List.mem_flatMap.2 ⟨fact, CodeBindings.facts_ofScenario sc names hfact, hc⟩

theorem filedAt_common_of_fixed {c : String} (hc : c ∈ Scenario.widthNames ++ parameterNames) :
    FiledAt c (.common c) := by
  have hslots : ∀ c ∈ Scenario.widthNames ++ parameterNames, slotOf c = .common c := by decide +kernel
  exact filedAt_iff.2 (hslots c hc)

/-! ## Values of constants -/

namespace Report

/-- A report has in the slot of a name what the model says of the name. -/
theorem get?_of_filedAt (m : Model) {c : String} {slot : Slot} (h : FiledAt c slot) :
    (ofModel m).get? slot = (m.get? c).map ModelValue.toScalar := by
  refine Option.ext fun v => ?_
  rw [get?_ofModel, ← Dict.get?_map]
  constructor
  · rintro ⟨name, hname, hv⟩
    rwa [hname.name_unique h] at hv
  · exact fun hv => ⟨c, h, hv⟩

theorem common_eq_none (m : Model) {c : String} {p : FilePlace} (h : FiledAt c (.field p)) :
    (ofModel m).common.get? c = none := by
  refine Option.eq_none_iff_forall_ne_some.2 fun v hv => ?_
  obtain ⟨name, hname, -⟩ := (get?_ofModel m (.common c) v).1 hv
  cases hname with
  | common hno =>
    cases h with
    | field hp => exact hno p hp

/-- In the report of a model the constants of an object of a listed kind are under its kind and its id, each under
the field that its name ends in. Those of destinations and intersections, the widths of lane and road and the
parameters of the code are common. -/
theorem objects_filed_by_name (m : Model) :
    (∀ kind ∈ reportedKinds, ∀ id : String, id ≠ "" → (∀ ch ∈ id.toList, ch.isAlphanum = true) →
      ∀ c ∈ (TrafficObject.ofKind kind id).constants, ∃ field ∈ fieldNames,
        c = (TrafficObject.ofKind kind id).name ++ "_" ++ field ∧
        (ofModel m).field? kind id field = (m.get? c).map ModelValue.toScalar ∧ (ofModel m).common.get? c = none) ∧
    (∀ kind ∈ [ObjectKind.destination, .intersection], ∀ id, ∀ c ∈ (TrafficObject.ofKind kind id).constants,
      (ofModel m).common.get? c = (m.get? c).map ModelValue.toScalar) ∧
    (∀ c ∈ Scenario.widthNames, (ofModel m).common.get? c = (m.get? c).map ModelValue.toScalar) ∧
    (∀ sc names, ∀ fact ∈ ((CodeBindings.ofScenario sc).run names).1.facts, ∀ c ∈ fact.constNames,
      (ofModel m).common.get? c = (m.get? c).map ModelValue.toScalar) := by
  refine ⟨fun kind hkind id hid halnum c hc => ?_, fun kind hkind id c hc => ?_, fun c hc => ?_,
    fun sc names fact hfact c hc => ?_⟩
  · obtain ⟨field, hfield, rfl⟩ := TrafficObject.exists_field hc
    have hfiled := filedAt_field hkind hid halnum hfield
    exact ⟨field, hfield, rfl, get?_of_filedAt m hfiled, common_eq_none m hfiled⟩
  · have hunlisted : ∀ kind ∈ [ObjectKind.destination, .intersection], kind ∉ reportedKinds := by decide
    exact get?_of_filedAt m (filedAt_common_of_kind (hunlisted kind hkind) hc)
  · exact get?_of_filedAt m (filedAt_common_of_fixed (List.mem_append_left _ hc))
  · exact get?_of_filedAt m (filedAt_common_of_fixed (List.mem_append_right _ (mem_parameterNames hfact hc)))

/-- A field with underscores under a label with one; everything else in the model is common. -/
theorem objects_filed_by_name_stop_sign :
    let m : Model := Dict.ofList [("stop_sign_7b_lane_way_id", .int 2), ("intersection_pos_s", .int 30),
      ("lane_left_width", .bool true), ("type_13", .int 3)]
    let sc := (Scenario.basic {}).install .crosswalk
    "stop_sign_7b_lane_way_id" ∈ (TrafficObject.ofKind .stopSign "7b").constants ∧
      (ofModel m).field? .stopSign "7b" "lane_way_id" = some (.int 2) ∧
      "intersection_pos_s" ∈ (TrafficObject.ofKind .intersection "").constants ∧
      (ofModel m).common.get? "intersection_pos_s" = some (.int 30) ∧
      "lane_left_width" ∈ Scenario.widthNames ∧ (ofModel m).common.get? "lane_left_width" = some (.bool true) ∧
      Term.eq (.realConst "type_13") (.int 3) ∈ ((CodeBindings.ofScenario sc).run .initial).1.facts ∧
      (ofModel m).common.get? "type_13" = some (.int 3) := by
  intro m sc
  obtain ⟨hobjects, hother, hwidths, hparameters⟩ := objects_filed_by_name m
  have hsign : "stop_sign_7b_lane_way_id" ∈ (TrafficObject.ofKind .stopSign "7b").constants := by decide +kernel
  have hcrossing : "intersection_pos_s" ∈ (TrafficObject.ofKind .intersection "").constants := by decide +kernel
  have hwidth : "lane_left_width" ∈ Scenario.widthNames := by decide +kernel
  have hfact : Term.eq (.realConst "type_13") (.int 3) ∈ ((CodeBindings.ofScenario sc).run .initial).1.facts := by
    have hfacts : ((CodeBindings.ofScenario sc).run .initial).1.facts = CodeBindings.crosswalkFacts := by cbv
    rw [hfacts]
    simp [CodeBindings.crosswalkFacts]
  have halnum : ∀ ch ∈ "7b".toList, ch.isAlphanum = true := List.all_eq_true.1 (by decide)
  obtain ⟨field, hfield, hname, hvalue, -⟩ := hobjects .stopSign (by decide) "7b" (by decide) halnum _ hsign
  have hway : ∀ field ∈ fieldNames,
      "stop_sign_7b_lane_way_id" = (TrafficObject.ofKind .stopSign "7b").name ++ "_" ++ field →
        field = "lane_way_id" := by decide +kernel
  obtain rfl := hway field hfield hname
  refine ⟨hsign, hvalue.trans ?_, hcrossing, (hother .intersection (by decide) "" _ hcrossing).trans ?_, hwidth,
    (hwidths _ hwidth).trans ?_, hfact, (hparameters sc .initial _ hfact "type_13" (by decide)).trans ?_⟩
  all_goals cbv

end Report

end RoadPolicy
