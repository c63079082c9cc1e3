/-
The path of the ego vehicle. Whatever is installed, the ego vehicle starts at the origin and moves along
the road, between the sides of its lane and of the road. The strips of lane and road hold what lies ahead
of the origin, so all of the trajectory is on them but its start; and the formulas that claim it of the
whole trajectory are false, because the start is part of it.
-/
import RoadPolicy.Proofs.Policy.SatisfiableModel
import RoadPolicy.Proofs.Policy.UsedNames
import RoadPolicy.Proofs.Road.StraightLines

namespace RoadPolicy

/-! ## Installed capabilities -/

namespace Scenario

variable {sc : Scenario} {I : Interpretation}

/-- The objects that a scenario can have besides the ego vehicle. -/
def companions : List TrafficObject := .ofKind .destination "" :: Capability.all.flatMap Capability.objects

theorem objects_subset_companions (c : Capability) : c.objects ⊆ companions := by
  have hc : c ∈ Capability.all := by cases c <;> decide
  exact fun o ho => List.mem_cons_of_mem _ (List.mem_flatMap.2 ⟨c, hc, ho⟩)

theorem name_companion : ∀ o ∈ companions, egoVehicle.name ≠ o.name := by decide

/-- The ego vehicle is the one of the basic scenario, and the other objects are known. -/
structure Equipped (sc : Scenario) : Prop where
  ego_eq : sc.ego = egoVehicle
  others_subset : sc.others ⊆ companions

theorem Equipped.add (h : sc.Equipped) {o : TrafficObject} (ho : o ∈ companions) : (sc.add o).Equipped := by
  have hname : sc.ego.name ≠ o.name := h.ego_eq ▸ name_companion o ho
  rw [Scenario.add, if_neg hname]
  refine ⟨h.ego_eq, fun p hp => ?_⟩
  rcases TrafficObject.mem_putIn hp with rfl | hp
  · exact ho
  · exact h.others_subset hp

theorem Equipped.install (h : sc.Equipped) (c : Capability) : (sc.install c).Equipped := by
  have hall : (c.objects.foldl Scenario.add sc).Equipped :=
    List.foldlRecOn c.objects Scenario.add h fun _ hsc _ ho => hsc.add (objects_subset_companions c ho)
  unfold Scenario.install
  split
  · exact h
  · exact ⟨hall.ego_eq, hall.others_subset⟩

theorem equipped_installed (settings : ScenarioSettings) (caps : List Capability) :
    (caps.foldl Scenario.install (basic settings)).Equipped := by
  have hbasic : (basic settings).Equipped := ⟨rfl, List.cons_subset_cons _ (List.nil_subset _)⟩
  exact List.foldlRecOn caps Scenario.install hbasic fun _ hsc c _ => hsc.install c

/-! ## The ego vehicle in an allowed situation -/

/-- How the ego vehicle moves. -/
def egoMotion : Motion := .ofVelocity egoVehicle.pos (.named "vehicle_ego_v")

theorem motion_egoVehicle : egoVehicle.motion = some egoMotion := rfl

/-- The strips that every scenario has, with their names. -/
def strips : List (String × Area) := [("lane_boundary", laneBoundary), ("road_boundary", roadBoundary)]

/-- The ego vehicle stands at the origin and moves along the road. -/
theorem Equipped.ego_ahead (h : sc.Equipped) (hI : ∀ t ∈ sc.invariants, I.Satisfies t) :
    I.place egoVehicle.pos = ⟨0, 0⟩ ∧ (I.place egoMotion.v).l = 0 ∧ 0 < (I.place egoMotion.v).s := by
  have hego : ∀ t ∈ egoVehicle.constraints, I.Satisfies t := by
    intro t ht
    refine hI t (List.mem_append_left _ (List.mem_append_right _ (List.mem_flatMap.2 ⟨sc.ego, List.mem_cons_self, ?_⟩)))
    rwa [h.ego_eq]
  have hpos := hego (.and [.eq egoVehicle.pos.l (.int 0), .eq egoVehicle.pos.s (.int 0)])
    (List.mem_append_left _ (List.mem_append_right _ (List.mem_singleton.2 rfl)))
  have hv := hego (.and [.eq egoMotion.v.l (.int 0), egoMotion.v.s.gt (.int 0)])
    (List.mem_append_right _ (List.mem_singleton.2 rfl))
  rw [I.satisfies_and_pair, I.satisfies_eq, I.satisfies_eq] at hpos
  rw [I.satisfies_and_pair, I.satisfies_eq, I.satisfies_gt] at hv
  exact ⟨Place.ext (congrArg Datum.amount hpos.1) (congrArg Datum.amount hpos.2), congrArg Datum.amount hv.1, hv.2⟩

/-- The strips have room on both sides of the ego vehicle. -/
theorem strip_sides (hI : ∀ t ∈ sc.invariants, I.Satisfies t) : ∀ b ∈ strips, ∃ left right,
    b.2 = .corridor left right ∧ 0 < I.amount left ∧ 0 < I.amount right := by
  have hwidths : ∀ t ∈ widthConstraints, I.Satisfies t := fun t ht =>
    hI t (List.mem_append_left _ (List.mem_append_left _ ht))
  simp only [widthConstraints, List.forall_mem_cons, I.satisfies_and, I.satisfies_gt, I.amount_int,
    Int.cast_zero] at hwidths
  obtain ⟨⟨hll, hlr, -⟩, -, -, ⟨hrl, hrr, -⟩, -⟩ := hwidths
  simp only [strips, List.forall_mem_cons]
  exact ⟨⟨_, _, rfl, hll, hlr⟩, ⟨_, _, rfl, hrl, hrr⟩, List.forall_mem_nil _⟩

variable {b : String × Area}

/-- All of the trajectory but its start is on the strips. -/
theorem Equipped.mem_strip (h : sc.Equipped) (hI : ∀ t ∈ sc.invariants, I.Satisfies t) (hb : b ∈ strips) {x : Place}
    (hx : x ∈ egoMotion.trajectory.points I) (hmoved : x ≠ ⟨0, 0⟩) : x ∈ b.2.points I := by
  obtain ⟨hpos, hl, hs⟩ := h.ego_ahead hI
  obtain ⟨left, right, hstrip, hleft, hright⟩ := strip_sides hI b hb
  have hray : x ∈ Place.ray (I.place egoVehicle.pos) (I.place egoMotion.v) := hx.1
  rw [hpos] at hray
  obtain ⟨hxl, hxs⟩ := Place.ray_along hl hs hray
  -- off the origin a place of the ray is strictly ahead, as a corridor wants it
  have hpast : x.s ≠ 0 := fun hxs => hmoved (Place.ext hxl hxs)
  rw [hstrip]
  refine ⟨lt_of_le_of_ne hxs hpast.symm, ?_, ?_⟩
  · rw [hxl, neg_nonpos]
    exact hleft.le
  · rw [hxl]
    exact hright.le

theorem Equipped.origin_mem_trajectory (h : sc.Equipped) (hI : ∀ t ∈ sc.invariants, I.Satisfies t) :
    ⟨0, 0⟩ ∈ egoMotion.trajectory.points I := by
  have hstart : (I.place egoVehicle.pos).after (I.place egoMotion.v) 0 ∈ egoMotion.trajectory.points I :=
    Line.after_mem_trajectory I _ _ le_rfl (by norm_num [trajectoryHorizon])
  rwa [Place.after_zero, (h.ego_ahead hI).1] at hstart

theorem origin_not_mem_strip (I : Interpretation) : ∀ b ∈ strips, (⟨0, 0⟩ : Place) ∉ b.2.points I := by
  simp [strips, laneBoundary, roadBoundary, Area.points, Place.ahead]

theorem spare_strip (names : NameSupply) (hb : b ∈ strips) :
    AllSpare names.nextPoint egoMotion.trajectory.terms ∧ AllSpare names.nextPoint b.2.terms := by
  have hmarks : ∀ b ∈ strips, ∀ t ∈ egoMotion.trajectory.terms ++ b.2.terms, t.Unmarked := by
    simp only [Term.unmarked_iff]
    decide
  exact allSpare_append.1 fun t ht => (hmarks b hb t ht).spares names

/-- Because of its start, the trajectory as a whole is on no strip. -/
theorem Equipped.not_within_strip (h : sc.Equipped) (hI : ∀ t ∈ sc.invariants, I.Satisfies t) (hb : b ∈ strips)
    (names : NameSupply) : ¬ I.Satisfies ((includedIn egoMotion.trajectory.contains b.2.contains).run names).1 := by
  obtain ⟨hpath, hstrip⟩ := spare_strip names hb
  rw [satisfies_includedIn (Line.satisfies_named hpath) (Area.satisfies_named hstrip)]
  exact fun hsub => origin_not_mem_strip I b hb (hsub (h.origin_mem_trajectory hI))

/-! ## Names -/

/-- The names that a policy about the path of the ego vehicle uses. -/
def pathNames : List (String × Value) :=
  ("vehicle_ego.trajectory", .line egoMotion.trajectory) :: strips.map fun b => (b.1, .area b.2)

theorem trajectory_mem_symbols : ("vehicle_ego.trajectory", .line egoMotion.trajectory) ∈ objectSymbols egoVehicle :=
  List.mem_map.2 ⟨(".trajectory", .line egoMotion.trajectory), by simp [featureSymbols, motion_egoVehicle], rfl⟩

theorem Equipped.pathNames_subset (h : sc.Equipped) : pathNames ⊆ sc.symbols := by
  have hpath : ("vehicle_ego.trajectory", .line egoMotion.trajectory) ∈ sc.objects.flatMap objectSymbols :=
    List.mem_flatMap.2 ⟨sc.ego, List.mem_cons_self, h.ego_eq ▸ trajectory_mem_symbols⟩
  simp [pathNames, strips, symbols, hpath]

theorem symbols_egoVehicle : ∀ e ∈ objectSymbols egoVehicle, ∀ f ∈ pathNames, e.1 = f.1 → e.2 = f.2 := by
  have hnodup : ((objectSymbols egoVehicle).map (·.1)).Nodup := by decide +kernel
  have hstrips : ∀ e ∈ objectSymbols egoVehicle, ∀ b ∈ strips, e.1 ≠ b.1 := by decide +kernel
  intro e he f hf hname
  -- the names of one object are apart, so the trajectory has its name to itself
  rcases List.mem_cons.1 hf with rfl | hf
  · rw [List.inj_on_of_nodup_map hnodup he trajectory_mem_symbols hname]
  · obtain ⟨b, hb, rfl⟩ := List.mem_map.1 hf
    exact absurd hname (hstrips e he b hb)

theorem symbols_companion : ∀ o ∈ companions, ∀ e ∈ objectSymbols o, ∀ f ∈ pathNames, e.1 ≠ f.1 := by decide +kernel

/-- Every binding of one of the names gives it the same value. -/
theorem Equipped.symbols_agree (h : sc.Equipped) : ∀ e ∈ sc.symbols, ∀ f ∈ pathNames, e.1 = f.1 → e.2 = f.2 := by
  refine List.forall_mem_append.2 ⟨?_, fun e he => ?_⟩
  · simp [pathNames, strips]
  · obtain ⟨o, ho, he⟩ := List.mem_flatMap.1 he
    rcases List.mem_cons.1 ho with rfl | ho
    · rw [h.ego_eq] at he
      exact symbols_egoVehicle e he
    · exact fun f hf hname => absurd hname (symbols_companion o (h.others_subset ho) e he f hf)

/-- What the names denote in the model of a scenario, whatever is asserted there. -/
theorem Equipped.lookup_pathNames (h : sc.Equipped) (fs : List Term) : ∀ f ∈ pathNames,
    ((Registry.empty.defineAll .model sc.symbols).assertAll .model fs).lookup f.1 = some f.2 := by
  intro f hf
  have hcode : (Registry.empty.defineAll .model sc.symbols).lookupIn .code f.1 = none :=
    Registry.lookupIn_defineAll_of_ne _ fun _ _ hspace => Space.noConfusion hspace
  have hmodel : (Registry.empty.defineAll .model sc.symbols).lookupIn .model f.1 = some f.2 :=
    Registry.lookupIn_defineAll .model _ (h.pathNames_subset hf) fun e he hname => h.symbols_agree e he f hf hname
  rw [Registry.lookup_assertAll, Registry.lookup, Space.lookupOrder, List.findSome?_cons, hcode, List.findSome?_cons,
    hmodel]

end Scenario

/-! ## Sources -/

/-- The word is neither an operator nor a literal nor a marker. -/
def PlainWord (word : String) : Prop :=
  (∀ op : Operator, op.text ≠ word) ∧ Literal.ofWord? word = none ∧ Marker.ofWord? word = none

section

variable {r : Registry} {word word' : String} {v : Value}

theorem PlainWord.derives (hword : PlainWord word) (hv : r.lookup word = some v) (span : Span) :
    Derives r.resolves [⟨.word word, span⟩] (.node (.symbol word) span []) := by
  refine .leaf hword.1 (leafOfWord?_eq_some_iff.1 ?_)
  have hresolves : r.resolves word = true := by rw [Registry.resolves, hv]; rfl
  simp [leafOfWord?, hword.2, hresolves]

theorem operand_name (hv : r.lookup word = some v) (span : Span) (args : List Operand) :
    (Head.symbol word).operand r span args = pure (.value v) := by
  rw [Head.operand, hv]

/-- A source that puts a line into an area, both by their names, is compiled to their inclusion. -/
theorem run_compile_within {source : String} {l : Line} {a : Area}
    (hkinds : (tokenize source).map (·.kind) = [.word "in", .openParen, .word word, .comma, .word word', .closeParen])
    (hword : PlainWord word) (hword' : PlainWord word') (hl : r.lookup word = some (.line l))
    (ha : r.lookup word' = some (.area a)) (names : NameSupply) :
    (compile r source).run.run names =
      (.ok ((includedIn l.contains a.contains).run names).1.simplify, ⟨names.issued + 1⟩) := by
  -- the kinds leave only the spans of the tokens open
  simp only [List.map_eq_cons_iff, List.map_eq_nil_iff] at hkinds
  obtain ⟨⟨_, s₀⟩, _, htokens, rfl, ⟨_, s₁⟩, _, rfl, rfl, ⟨_, s₂⟩, _, rfl, rfl, ⟨_, s₃⟩, _, rfl, rfl, ⟨_, s₄⟩, _, rfl,
    rfl, ⟨_, s₅⟩, _, rfl, rfl, rfl⟩ := hkinds
  have hderives : Derives r.resolves (tokenize source) (.node (.operator .inside) s₀
      [.node (.symbol word) s₂ [], .node (.symbol word') s₄ []]) := by
    rw [htokens]
    exact @Derives.call _ .inside s₀ s₁ s₅ _ _ (.more (hword.derives hl s₂) (.one (hword'.derives ha s₄)))
  have hparse := parseTokens_eq_ok_iff.2 ⟨_, hderives, rfl⟩
  rw [run_compile_tree hparse]
  simp only [Expression.tree, Expression.treeAll, Tree.lower, Tree.lowerAll, pure_bind, operand_name hl,
    operand_name ha]
  rfl

end

namespace Scenario

variable {sc : Scenario} {b : String × Area}

/-- The source that puts the path of the ego vehicle onto a strip. -/
def pathSource (strip : String) : String := "in(vehicle_ego.trajectory, " ++ strip ++ ")"

theorem kinds_pathSource : ∀ b ∈ strips, (tokenize (pathSource b.1)).map (·.kind) =
    [.word "in", .openParen, .word "vehicle_ego.trajectory", .comma, .word b.1, .closeParen] := by decide +kernel

theorem plain_pathNames : ∀ f ∈ pathNames, PlainWord f.1 := by
  have hoperator : ∀ f ∈ pathNames, ∀ op ∈ Operator.all, op.text ≠ f.1 := by decide +kernel
  have hliteral : ∀ f ∈ pathNames, (Literal.ofWord? f.1).isNone := by decide +kernel
  have hmarker : ∀ f ∈ pathNames, (Marker.ofWord? f.1).isNone := by decide +kernel
  intro f hf
  exact ⟨fun op => hoperator f hf op op.mem_all, Option.isNone_iff_eq_none.1 (hliteral f hf),
    Option.isNone_iff_eq_none.1 (hmarker f hf)⟩

/-- The formula of the source is not simplified any further. -/
theorem simplify_within_strip (names : NameSupply) : ∀ b ∈ strips,
    ((includedIn egoMotion.trajectory.contains b.2.contains).run names).1.simplify =
      ((includedIn egoMotion.trajectory.contains b.2.contains).run names).1 := by
  simp only [strips, List.forall_mem_cons]
  exact ⟨rfl, rfl, List.forall_mem_nil _⟩

theorem Equipped.run_compile_pathSource (h : sc.Equipped) (fs : List Term) (hb : b ∈ strips) (names : NameSupply) :
    (compile ((Registry.empty.defineAll .model sc.symbols).assertAll .model fs) (pathSource b.1)).run.run names =
      (.ok ((includedIn egoMotion.trajectory.contains b.2.contains).run names).1, ⟨names.issued + 1⟩) := by
  have hpath : ("vehicle_ego.trajectory", .line egoMotion.trajectory) ∈ pathNames := List.mem_cons_self
  have hstrip : (b.1, .area b.2) ∈ pathNames := List.mem_cons_of_mem _ (List.mem_map.2 ⟨b, hb, rfl⟩)
  generalize hr : (Registry.empty.defineAll .model sc.symbols).assertAll .model fs = r
  have hlookup : ∀ f ∈ pathNames, r.lookup f.1 = some f.2 := hr ▸ h.lookup_pathNames fs
  have hrun := run_compile_within (kinds_pathSource b hb) (plain_pathNames _ hpath) (plain_pathNames _ hstrip)
    (hlookup _ hpath) (hlookup _ hstrip) names
  rwa [simplify_within_strip names b hb] at hrun

/-! ## The path on the strips -/

/-- The common situation is allowed, whatever is installed. -/
theorem satisfies_installed (caps : List Capability) :
    ∀ t ∈ (caps.foldl Scenario.install (basic {})).invariants, commonSituation.Satisfies t := by
  have hbuilt : (caps.foldl Scenario.install (basic {})).Built {} :=
    List.foldlRecOn caps Scenario.install .basic fun _ hsc c _ => hsc.install c
  exact fun t ht => (hbuilt.regular.allows_invariants (fun _ => by decide) t ht).2

/-- Whatever is installed and in every situation that is allowed, the trajectory of the ego vehicle is on its
lane and on the road, but for the start: that is the origin, which lies on no strip. Therefore the formulas
that a policy gets for `in(vehicle_ego.trajectory, lane_boundary)` and for the road are false. -/
theorem ego_path_on_strips (settings : ScenarioSettings) (caps : List Capability) :
    let sc := caps.foldl Scenario.install (basic settings)
    sc.ego.motion = some egoMotion ∧
    ∀ b ∈ strips,
      (∀ (fs : List Term) (names : NameSupply),
        (compile ((Registry.empty.defineAll .model sc.symbols).assertAll .model fs) (pathSource b.1)).run.run names =
          (.ok ((includedIn egoMotion.trajectory.contains b.2.contains).run names).1, ⟨names.issued + 1⟩)) ∧
      ∀ I : Interpretation, (∀ t ∈ sc.invariants, I.Satisfies t) →
        (∀ p : Point, I.Satisfies (egoMotion.trajectory.contains p) →
          (I.Satisfies (b.2.contains p) ↔ I.place p ≠ ⟨0, 0⟩)) ∧
        (∀ p : Point, I.place p = ⟨0, 0⟩ → I.Satisfies (egoMotion.trajectory.contains p)) ∧
        ∀ names : NameSupply, ¬ I.Satisfies ((includedIn egoMotion.trajectory.contains b.2.contains).run names).1 := by
  intro sc
  have hsc : sc.Equipped := equipped_installed settings caps
  clear_value sc
  refine ⟨by rw [hsc.ego_eq, motion_egoVehicle], fun b hb => ?_⟩
  refine ⟨fun fs names => hsc.run_compile_pathSource fs hb names, fun I hI => ?_⟩
  refine ⟨fun p hp => ?_, fun p hp => ?_, hsc.not_within_strip hI hb⟩
  · rw [Line.satisfies_contains] at hp
    rw [Area.satisfies_contains]
    refine ⟨fun hstrip horigin => ?_, hsc.mem_strip hI hb hp⟩
    rw [horigin] at hstrip
    exact origin_not_mem_strip I b hb hstrip
  · rw [Line.satisfies_contains, hp]
    exact hsc.origin_mem_trajectory hI

/-- At an intersection with a crosswalk, one second ahead the ego vehicle is on its lane. -/
theorem ego_path_on_strips_at_crosswalk :
    let sc := [Capability.crosswalk, .intersection, .crosswalk].foldl Scenario.install (basic {})
    let start : Point := ⟨.int 0, .int 0⟩
    let p : Point := ⟨.int 0, .int 1⟩
    ("lane_boundary", laneBoundary) ∈ strips ∧
      (∀ t ∈ sc.invariants, commonSituation.Satisfies t) ∧
      (commonSituation.Satisfies (egoMotion.trajectory.contains p) ∧ commonSituation.place p ≠ ⟨0, 0⟩ ∧
        commonSituation.Satisfies (laneBoundary.contains p)) ∧
      (commonSituation.place start = ⟨0, 0⟩ ∧ commonSituation.Satisfies (egoMotion.trajectory.contains start)) ∧
      ¬ commonSituation.Satisfies
        ((includedIn egoMotion.trajectory.contains laneBoundary.contains).run .initial).1 := by
  intro sc start p
  have hlane : ("lane_boundary", laneBoundary) ∈ strips := List.mem_cons_self
  have hI := satisfies_installed [.crosswalk, .intersection, .crosswalk]
  have hp : commonSituation.place p ≠ ⟨0, 0⟩ := fun h => absurd (congrArg Place.s h) (by decide +kernel)
  have hpath : commonSituation.Satisfies (egoMotion.trajectory.contains p) := by
    have hafter : commonSituation.place p =
        (commonSituation.place egoVehicle.pos).after (commonSituation.place egoMotion.v) 1 :=
      Place.ext (by decide +kernel) (by decide +kernel)
    rw [Line.satisfies_contains, hafter]
    exact Line.after_mem_trajectory _ _ _ zero_le_one (by norm_num [trajectoryHorizon])
  obtain ⟨-, hstrips⟩ := ego_path_on_strips {} [.crosswalk, .intersection, .crosswalk]
  obtain ⟨hon, hstart, hnot⟩ := (hstrips _ hlane).2 commonSituation hI
  exact ⟨hlane, hI, ⟨hpath, hp, (hon p hpath).2 hp⟩, ⟨rfl, hstart start rfl⟩, hnot .initial⟩

/-- Only the ego vehicle and a destination, the ego vehicle with unit speed: the situation is allowed, and the
start is on the trajectory but on neither strip. -/
theorem ego_path_off_strips_at_start :
    let sc := [].foldl Scenario.install (basic {})
    let start : Point := ⟨.int 0, .int 0⟩
    let env : Assignment := [("vehicle_ego_pos_l", 0), ("vehicle_ego_pos_s", 0), ("vehicle_ego_v_l", 0),
      ("vehicle_ego_v_s", 1), ("vehicle_ego_size_l", 2), ("vehicle_ego_size_s", 2), ("destination_size_l", 2),
      ("destination_size_s", 2), ("lane_left_width", 2), ("lane_right_width", 2), ("road_left_width", 5),
      ("road_right_width", 5)].foldl (fun env v => env.insert v.1 (.int v.2)) .empty
    (∀ t ∈ sc.invariants, t.holds env = .ok true) ∧ (egoMotion.trajectory.contains start).holds env = .ok true ∧
    (∀ t ∈ sc.invariants, commonSituation.Satisfies t) ∧
    ∀ b ∈ strips, (b.2.contains start).holds env = .ok false ∧
      ¬ commonSituation.Satisfies ((includedIn egoMotion.trajectory.contains b.2.contains).run .initial).1 := by
  intro sc start env
  have hI := satisfies_installed []
  have hfalse : ∀ b ∈ strips, (b.2.contains start).holds env = .ok false := by decide +kernel
  refine ⟨by decide +kernel, by decide +kernel, hI, fun b hb => ⟨hfalse b hb, ?_⟩⟩
  exact (equipped_installed {} []).not_within_strip hI hb .initial

end Scenario

end RoadPolicy
