/-
The names of a scenario and those of its code policy stand for well-sorted values without marked
constants, if the objects of the scenario are such values. The relations among them are over fresh
points, so no constant of the scenario is captured, and the fresh names are bound in them.
-/
import RoadPolicy.Proofs.Policy.TidyCompile

namespace RoadPolicy

/-- The value is well-sorted, and no constant of it has a mark. -/
structure Value.Admissible (Γ : Signature) (v : Value) : Prop where
  sorted : v.WellSorted Γ
  unmarked : v.Unmarked

theorem Registry.Admissible.defineAll {Γ : Signature} {r : Registry} (hr : r.Admissible Γ) (space : Space)
    {bindings : List (String × Value)} (h : ∀ b ∈ bindings, b.2.Admissible Γ) :
    (r.defineAll space bindings).Admissible Γ := by
  induction bindings generalizing r with
  | nil => exact hr
  | cons b bindings ih =>
    rw [List.forall_mem_cons] at h
    exact ih (hr.define h.1.sorted h.1.unmarked space b.1) h.2

/-- The objects of the scenario are well-sorted, and no constant of them has a mark. -/
def Scenario.Admissible (sc : Scenario) : Prop := ∀ o ∈ sc.objects, (Value.object o).Admissible .free

/-! ## Marks -/

theorem disciplines_any : Disciplines .any fun _ => .any where
  figures := fun _ _ _ _ _ => trivial
  fresh := fun _ => trivial
  mono := fun _ _ => trivial

theorem Term.tidy_any_iff_unmarked {t : Term} : t.Tidy .any [] ↔ t.Unmarked :=
  tidy_any_iff.trans unmarked_iff.symm

theorem Scenario.Admissible.tidy {sc : Scenario} (h : sc.Admissible) : sc.Tidy .any :=
  fun o ho t ht => Term.tidy_any_iff_unmarked.2 ((h o ho).unmarked t ht)

/-! ## Names of a scenario -/

namespace Value

variable {Γ : Signature} {v : Value}

theorem admissible_term {t : Term} (h : t.IsNumber Γ) (hmarks : t.Unmarked) : (term t).Admissible Γ :=
  ⟨wellSorted_term.2 h.1, List.forall_mem_singleton.2 hmarks⟩

/-- A value that is made of numbers only. -/
theorem admissible_of_numbers (hterm : ∀ t, v ≠ .term t) (hnone : v.constraints = [])
    (hnumbers : ∀ t ∈ v.numbers, t.IsNumber Γ ∧ t.Unmarked) : v.Admissible Γ := by
  have hterms : v.terms = v.numbers := by
    cases v with
    | term t => exact absurd rfl (hterm t)
    | point | line | area | lane | object => exact (congrArg (_ ++ ·) hnone).trans (List.append_nil _)
  refine ⟨⟨fun t ht => absurd ht (hterm t), fun t ht => (hnumbers t ht).1, ?_⟩, ?_⟩
  · rw [hnone]
    exact List.forall_mem_nil _
  · rw [Value.Unmarked, hterms]
    exact fun t ht => (hnumbers t ht).2

end Value

namespace TrafficObject

variable {Γ : Signature} {o : TrafficObject}

theorem allNumbers_place (h : AllNumbers Γ o.numbers) :
    (o.pos.l.IsNumber Γ ∧ o.pos.s.IsNumber Γ) ∧ o.size.l.IsNumber Γ ∧ o.size.s.IsNumber Γ :=
  ⟨allNumbers_point.1 fun t ht => h t (Operator.mem_numbers_pos ht),
    allNumbers_point.1 fun t ht => h t (Operator.mem_numbers_size ht)⟩

/-- The sides of an object are numbers. -/
theorem isNumber_sides (h : AllNumbers Γ o.numbers) :
    (o.startL.IsNumber Γ ∧ o.endL.IsNumber Γ) ∧ o.startS.IsNumber Γ ∧ o.endS.IsNumber Γ := by
  simp [startL, endL, startS, endS, allNumbers_place h]

section

variable (h : (Value.object o).Admissible Γ)

include h

theorem number_of_mem {t : Term} (ht : t ∈ o.numbers) : t.IsNumber Γ ∧ t.Unmarked :=
  ⟨h.sorted.numbers t ht, h.unmarked t (Value.mem_terms_of_mem_numbers ht)⟩

theorem admissible_number {t : Term} (ht : t ∈ o.numbers) : (Value.term t).Admissible Γ :=
  Value.admissible_term (number_of_mem h ht).1 (number_of_mem h ht).2

theorem admissible_part {v : Value} (hterm : ∀ t, v ≠ .term t) (hnone : v.constraints = [])
    (hsub : v.numbers ⊆ o.numbers) : v.Admissible Γ :=
  Value.admissible_of_numbers hterm hnone fun _ ht => number_of_mem h (hsub ht)

theorem admissible_point {p : Point} (hp : p.terms ⊆ o.numbers) :
    (Value.point p).Admissible Γ ∧ (Value.term p.l).Admissible Γ ∧ (Value.term p.s).Admissible Γ :=
  ⟨admissible_part h (fun _ => Value.noConfusion) rfl hp, admissible_number h (hp (by simp [Point.terms])),
    admissible_number h (hp (by simp [Point.terms]))⟩

theorem admissible_sides :
    ((Value.term o.startL).Admissible Γ ∧ (Value.term o.endL).Admissible Γ) ∧
      (Value.term o.startS).Admissible Γ ∧ (Value.term o.endS).Admissible Γ := by
  have htidy : ∀ t ∈ o.pos.terms ++ o.size.terms, t.Tidy .any [] := fun t ht =>
    Term.tidy_any_iff_unmarked.2 (number_of_mem h
      ((List.mem_append.1 ht).elim Operator.mem_numbers_pos Operator.mem_numbers_size)).2
  simp only [Point.terms, List.forall_mem_append, List.forall_mem_cons] at htidy
  have hmarks : (o.startL.Unmarked ∧ o.endL.Unmarked) ∧ o.startS.Unmarked ∧ o.endS.Unmarked := by
    simp [← Term.tidy_any_iff_unmarked, startL, endL, startS, endS, htidy]
  obtain ⟨⟨hstartL, hendL⟩, hstartS, hendS⟩ := isNumber_sides h.sorted.numbers
  exact ⟨⟨Value.admissible_term hstartL hmarks.1.1, Value.admissible_term hendL hmarks.1.2⟩,
    Value.admissible_term hstartS hmarks.2.1, Value.admissible_term hendS hmarks.2.2⟩

/-- All features of an object that have names. -/
theorem admissible_features : ∀ e ∈ Scenario.featureSymbols o, e.2.Admissible Γ := by
  have hpos : o.pos.terms ⊆ o.numbers := fun t ht => Operator.mem_numbers_pos ht
  have hsize : o.size.terms ⊆ o.numbers := fun t ht => Operator.mem_numbers_size ht
  have hbox : o.boundary.terms ⊆ o.numbers := List.append_subset.2 ⟨hpos, hsize⟩
  have hboundary : (Value.area o.boundary).Admissible Γ := admissible_part h (fun _ => Value.noConfusion) rfl hbox
  simp only [Scenario.featureSymbols, List.forall_mem_append]
  refine ⟨⟨⟨⟨?_, ?_⟩, ?_⟩, ?_⟩, ?_⟩
  · simp [h, admissible_point h hpos, admissible_point h hsize, hboundary, admissible_sides h]
  · rcases hm : o.motion with _ | m
    · exact List.forall_mem_nil _
    · have hterms : m.terms ⊆ o.numbers := fun t ht => Operator.mem_numbers_motion hm ht
      rw [Motion.terms, List.append_subset, List.cons_subset] at hterms
      have hpath : (Value.line m.trajectory).Admissible Γ :=
        admissible_part h (fun _ => Value.noConfusion) rfl hterms.2.2
      simp [admissible_point h hterms.1, admissible_number h hterms.2.1, hpath]
  · rcases hl : o.lane with _ | l
    · exact List.forall_mem_nil _
    · have hterms : l.terms ⊆ o.numbers := fun t ht => by simp [numbers, hl, ht]
      have heach : ∀ t ∈ l.terms, (Value.term t).Admissible Γ := fun t ht => admissible_number h (hterms ht)
      have hlane : (Value.lane l).Admissible Γ := admissible_part h (fun _ => Value.noConfusion) rfl hterms
      simp only [Lane.terms, List.forall_mem_cons] at heach
      simp [hlane, heach]
  · rcases hc : o.color with _ | t
    · exact List.forall_mem_nil _
    · exact List.forall_mem_singleton.2 (admissible_number h (by simp [numbers, hc]))
  · rcases ha : o.arriveTime with _ | t
    · exact List.forall_mem_nil _
    · exact List.forall_mem_singleton.2 (admissible_number h (by simp [numbers, ha]))

end

end TrafficObject

namespace Scenario

theorem admissible_strips : ∀ a ∈ [laneBoundary, roadBoundary], (Value.area a).Admissible .free := by
  have hmarks : ∀ a ∈ [laneBoundary, roadBoundary], ∀ t ∈ a.terms, t.Unmarked := by
    simp only [Term.unmarked_iff]
    decide
  have hnumbers : ∀ a ∈ [laneBoundary, roadBoundary], AllNumbers .free a.terms := by
    simp [laneBoundary, roadBoundary, laneLeft, laneRight, roadLeft, roadRight, Area.terms, Term.realConst,
      Term.IsNumber, Term.WellSorted, Signature.free, Term.sort]
  exact fun a ha => Value.admissible_of_numbers (fun _ => Value.noConfusion) rfl fun t ht =>
    ⟨hnumbers a ha t ht, hmarks a ha t ht⟩

theorem Admissible.symbols {sc : Scenario} (h : sc.Admissible) : ∀ b ∈ sc.symbols, b.2.Admissible .free := by
  have hlimit : (Value.term (.int sc.settings.maxStopDeceleration)).Admissible .free :=
    Value.admissible_term (Term.isNumber_int _) (Term.tidy_any_iff_unmarked.1 trivial)
  have hego : (Value.object sc.ego).Admissible .free := h _ List.mem_cons_self
  have hstrips := admissible_strips
  rw [List.forall_mem_cons, List.forall_mem_singleton] at hstrips
  refine List.forall_mem_append.2 ⟨by simp [hego, hstrips, hlimit], fun b hb => ?_⟩
  obtain ⟨o, ho, hb⟩ := List.mem_flatMap.1 hb
  obtain ⟨e, he, rfl⟩ := List.mem_map.1 hb
  exact TrafficObject.admissible_features (h o ho) e he

/-- The scenario with only the ego vehicle and a destination. -/
theorem admissible_basic (settings : ScenarioSettings) : (basic settings).Admissible := by
  have hmarks : ∀ o ∈ [egoVehicle, .ofKind .destination ""], ∀ t ∈ (Value.object o).terms, t.Unmarked := by
    simp only [Term.unmarked_iff]
    decide +kernel
  have hconst : ∀ name, (Term.realConst name).IsNumber .free := fun _ => ⟨trivial, TermSort.noConfusion⟩
  have hfixed : ∀ name n, (Term.eq (.realConst name) (.int n)).IsFormula .free := fun name n =>
    (hconst name).isFormula_eq (Term.isNumber_int n)
  have hnumbers : ∀ o ∈ [egoVehicle, .ofKind .destination ""], AllNumbers .free o.numbers := by
    simp [egoVehicle, TrafficObject.ofKind, TrafficObject.unconstrained, TrafficObject.numbers, ObjectKind.isMobile,
      ObjectKind.hasLane, Point.named, Lane.named, Motion.ofVelocity, Point.terms, Lane.terms, Motion.terms, Line.terms,
      hconst]
  have hconstraints : ∀ o ∈ [egoVehicle, .ofKind .destination ""], ∀ t ∈ o.constraints, t.IsFormula .free := by
    simp [egoVehicle, TrafficObject.ofKind, TrafficObject.unconstrained, TrafficObject.kindConstraints,
      TrafficObject.hasSize, TrafficObject.speedLimit, ObjectKind.isMobile, Point.named, Motion.ofVelocity, hconst,
      hfixed]
  intro o ho
  exact ⟨⟨fun _ => Value.noConfusion, hnumbers o ho, hconstraints o ho⟩, hmarks o ho⟩

end Scenario

/-! ## Names of the code policy -/

namespace CodeBindings

/-- The values that names are bound to are well-sorted. -/
def Sorted (b : CodeBindings) : Prop := ∀ e ∈ b.symbols, e.2.WellSorted .free

section

variable {a b : CodeBindings} {name : String} {v : Value} {t c : Term} {n : Int}

@[simp] theorem sorted_append : (a ++ b).Sorted ↔ a.Sorted ∧ b.Sorted := List.forall_mem_append

@[simp] theorem sorted_none : none.Sorted := List.forall_mem_nil _

@[simp] theorem sorted_bind : (bind name v).Sorted ↔ v.WellSorted .free := List.forall_mem_singleton

@[simp] theorem sorted_bindTerm : (bindTerm name t).Sorted ↔ t.WellSorted .free :=
  sorted_bind.trans Value.wellSorted_term

@[simp] theorem sorted_fixed : (fixed c t name).Sorted ↔ c.WellSorted .free :=
  List.forall_mem_singleton.trans Value.wellSorted_term

@[simp] theorem sorted_param : (param name n).Sorted := sorted_fixed.2 trivial

end

theorem describes_road (names : NameSupply) :
    Describes .free names.nextPoint Scenario.roadBoundary.contains Scenario.roadBoundary.points := by
  have hroad := Scenario.admissible_strips Scenario.roadBoundary (by simp)
  exact Area.describes hroad.sorted.numbers
    (Operator.allSpare_of_unmarked (fun t ht => hroad.unmarked t (Value.mem_terms_of_mem_numbers ht)) names)

variable {sc : Scenario} (hsc : sc.Admissible)

include hsc

theorem numbers_of_mem {o : TrafficObject} (ho : o ∈ sc.objects) : AllNumbers .free o.numbers :=
  (hsc o ho).sorted.numbers

theorem spare_of_mem {o : TrafficObject} (ho : o ∈ sc.objects) (names : NameSupply) :
    AllSpare names.nextPoint o.numbers :=
  Operator.allSpare_of_unmarked (fun t ht => (hsc o ho).unmarked t (Value.mem_terms_of_mem_numbers ht)) names

theorem describes_boundary {o : TrafficObject} (ho : o ∈ sc.objects) (names : NameSupply) :
    Describes .free names.nextPoint o.boundary.contains o.boundary.points := by
  have hsub : ∀ t ∈ o.boundary.terms, t ∈ o.numbers := by
    intro t ht
    rcases List.mem_append.1 ht with ht | ht
    · exact Operator.mem_numbers_pos ht
    · exact Operator.mem_numbers_size ht
  exact Area.describes (fun t ht => numbers_of_mem hsc ho t (hsub t ht)) fun t ht =>
    spare_of_mem hsc ho names t (hsub t ht)

theorem sorted_always : (always sc).Sorted := by
  unfold always
  rcases hdest : sc.firstOf .destination with _ | dest
  · simp [destination, Term.WellSorted]
  · have hmem : dest ∈ sc.objects := List.mem_cons_of_mem _ (List.mem_of_find?_eq_some hdest)
    have hdest := TrafficObject.allNumbers_place (numbers_of_mem hsc hmem)
    have hego := TrafficObject.allNumbers_place (numbers_of_mem hsc List.mem_cons_self)
    have hnear : ∀ t ∈ [(dest.pos.s - sc.ego.pos.s).lt (.int 10), (dest.pos.s - sc.ego.pos.s).gt (.int (-10)),
        (dest.pos.l - sc.ego.pos.l).lt (.int 10), (dest.pos.l - sc.ego.pos.l).gt (.int 10)], t.IsFormula .free := by
      simp [hdest, hego]
    simp only [destination, sorted_append, sorted_bindTerm]
    exact ⟨(Term.isFormula_and.2 hnear).1, trivial⟩

theorem sorted_crosswalkWith {ped cw : TrafficObject} (hped : ped ∈ sc.objects) (hcw : cw ∈ sc.objects)
    {onCrosswalk onRoad : Term} {crossing : Option Term} (hcrosswalk : onCrosswalk.WellSorted .free)
    (hcrossing : ∀ t ∈ crossing, t.WellSorted .free) (hroad : onRoad.WellSorted .free) :
    (crosswalkWith sc.ego ped cw onCrosswalk crossing onRoad).Sorted := by
  obtain ⟨-, hstart, hend⟩ := TrafficObject.isNumber_sides (numbers_of_mem hsc List.mem_cons_self)
  obtain ⟨-, -, hfar⟩ := TrafficObject.isNumber_sides (numbers_of_mem hsc hcw)
  have hplace := (TrafficObject.allNumbers_place (numbers_of_mem hsc hped)).1
  have hside := (Operator.isNumber_abs hplace.1).1
  have hempty : (crossing.elim none (bindTerm "IsEmpty_26")).Sorted := by
    cases crossing with
    | none => exact sorted_none
    | some t => exact sorted_bindTerm.2 (hcrossing t rfl)
  have hfound : (Term.boolConst "FindCrosswalks_3").WellSorted .free := trivial
  simp [crosswalkWith, hcrosswalk, hempty, hroad, hstart.1, hend.1, hfar.1, hplace.2.1, hside, hfound]

/-- The formulas that take fresh names are well-sorted, whichever names they take. -/
theorem sorted_crosswalk {ped cw : TrafficObject} (hped : ped ∈ sc.objects) (hcw : cw ∈ sc.objects)
    (names : NameSupply) : ((crosswalk sc.ego ped cw).run names).1.Sorted := by
  have hego : sc.ego ∈ sc.objects := List.mem_cons_self
  have hmeets : ∀ names, ((meets ped.boundary.contains cw.boundary.contains).run names).1.WellSorted .free :=
    fun names => (meets_relates (describes_boundary hsc hped names) (describes_boundary hsc hcw names)).1.1
  have hroad : ∀ names, ((meets ped.boundary.contains Scenario.roadBoundary.contains).run names).1.WellSorted .free :=
    fun names => (meets_relates (describes_boundary hsc hped names) (describes_road names)).1.1
  have hpaths : ∀ names, ∀ t ∈ ((pathsMeet sc.ego ped).run names).1, t.WellSorted .free := by
    intro names
    unfold pathsMeet
    rcases hformula : Encounter.cross.formula sc.ego ped with _ | formula
    · rintro t ⟨⟩
    · obtain ⟨p, hp, -⟩ := Operator.encounter_relates hformula (numbers_of_mem hsc hego) (numbers_of_mem hsc hped)
        (spare_of_mem hsc hego names) (spare_of_mem hsc hped names)
      rintro t ⟨⟩
      exact hp.1.1
  rw [run_crosswalk]
  exact sorted_crosswalkWith hsc hped hcw (hmeets _) (hpaths _) (hroad _)

theorem sorted_atCrosswalk (names : NameSupply) : ((atCrosswalk sc).run names).1.Sorted := by
  unfold atCrosswalk
  split
  · rename_i ped cw _ hped hcw
    exact sorted_crosswalk hsc (List.mem_cons_of_mem _ (List.mem_of_find?_eq_some hped))
      (List.mem_cons_of_mem _ (List.mem_of_find?_eq_some hcw)) names
  · exact sorted_none

theorem sorted_atLight : (atLight sc).Sorted := by
  unfold atLight
  split
  · rename_i light _ hlight
    have hmem : light ∈ sc.objects := List.mem_of_find?_eq_some hlight
    have hego : sc.ego ∈ sc.objects := List.mem_cons_self
    obtain ⟨-, hstart, hend⟩ := TrafficObject.isNumber_sides (numbers_of_mem hsc hego)
    obtain ⟨-, hnear, hfar⟩ := TrafficObject.isNumber_sides (numbers_of_mem hsc hmem)
    have hlimit : (Term.int sc.settings.maxStopDeceleration).WellSorted .free := trivial
    unfold trafficLight
    rcases hm : sc.ego.motion with _ | m
    · simp [hstart.1, hend.1, hnear.1, hfar.1, (hsc light hmem).sorted, hlimit, hm]
    · have hvelocity : m.velocity.IsNumber .free :=
        numbers_of_mem hsc hego _ (Operator.mem_numbers_motion hm (by simp [Motion.terms]))
      have hbrake : (m.velocity / .int 2 / (light.startS - sc.ego.endS)).IsNumber .free := by
        simp [hvelocity, hnear, hend]
      simp [hstart.1, hend.1, hnear.1, hfar.1, (hsc light hmem).sorted, hlimit, hm, hbrake.1]
  · exact sorted_none

theorem sorted_ofScenario (names : NameSupply) : ((ofScenario sc).run names).1.Sorted := by
  rw [run_ofScenario, sorted_append, sorted_append]
  exact ⟨⟨sorted_always hsc, sorted_atCrosswalk hsc names⟩, sorted_atLight hsc⟩

/-- Whatever names have been taken, a code policy finds well-sorted values without marked constants. -/
theorem admissible_ofScenario (names : NameSupply) :
    ∀ e ∈ ((ofScenario sc).run names).1.symbols, e.2.Admissible .free := by
  intro e he
  have htidy := (tidy_ofScenario disciplines_any hsc.tidy names).2.symbols e he
  exact ⟨sorted_ofScenario hsc names e he, fun t ht => Term.tidy_any_iff_unmarked.1 (htidy.terms t ht)⟩

end CodeBindings

end RoadPolicy
