/-
Encounters tell apart the ways in which an obstacle can pass. Its path has the two sides of the band at
two distances along the road, and each of these lies before the window, inside it or beyond it. The
encounters name all pairs of zones but one: before the window on one side and beyond it on the other, so
that the obstacle passes the vehicle inside the band. Where it moves across the road at all, the two
distances are those at which its line has the offsets of the sides.
-/
import RoadPolicy.Proofs.Policy.FigureRelations
import RoadPolicy.Proofs.Policy.OperatorTyping

namespace RoadPolicy

/-! ## Zones -/

/-- Where a distance along the road lies relative to a window. -/
inductive Zone where
  | before
  | inside
  | beyond
deriving DecidableEq

/-- How an obstacle passes: in one of the encounters, or before the window on one side of the band and
beyond it on the other. -/
inductive Passage where
  | encounter (e : Encounter)
  | straddling
deriving DecidableEq

namespace Zone

/-- The zone of a distance. -/
def of (lo hi x : Rat) : Zone := if x < lo then before else if x ≤ hi then inside else beyond

/-- How an obstacle passes, by the zones of the two distances. -/
def passage : Zone → Zone → Passage
  | inside, _ => .encounter .cross
  | _, inside => .encounter .cross
  | before, before => .encounter .above
  | beyond, beyond => .encounter .below
  | before, beyond => .straddling
  | beyond, before => .straddling

variable (lo hi x : Rat)

theorem of_eq_before_iff : of lo hi x = before ↔ x < lo := by
  unfold of
  split
  · simp_all
  · split <;> simp_all

theorem of_eq_inside_iff : of lo hi x = inside ↔ lo ≤ x ∧ x ≤ hi := by
  unfold of
  split
  · simp_all
  · split <;> simp_all

variable {lo hi}

theorem of_eq_beyond_iff (h : lo ≤ hi) : of lo hi x = beyond ↔ hi < x := by
  unfold of
  split
  · simp only [reduceCtorEq, false_iff, not_lt]
    linarith
  · split <;> simp_all

end Zone

namespace Passage

/-- Two distances along the road are compared with a window. -/
def Timed : Passage → (a b lo hi : Rat) → Prop
  | encounter e, a, b, lo, hi => e.Timed a b lo hi
  | straddling, a, b, lo, hi => a < lo ∧ hi < b ∨ b < lo ∧ hi < a

/-- The zones decide how the obstacle passes. -/
theorem timed_iff {a b lo hi : Rat} (h : lo ≤ hi) (p : Passage) :
    p.Timed a b lo hi ↔ p = (Zone.of lo hi a).passage (Zone.of lo hi b) := by
  -- every comparison says in which zone one of the distances is, which leaves nine cases to a passage
  rcases p with (_ | _ | _) | _
  all_goals
    simp only [Timed, Encounter.Timed, gt_iff_lt, ← Zone.of_eq_before_iff lo hi a, ← Zone.of_eq_before_iff lo hi b,
      ← Zone.of_eq_inside_iff, ← Zone.of_eq_beyond_iff a h, ← Zone.of_eq_beyond_iff b h]
    cases Zone.of lo hi a <;> cases Zone.of lo hi b <;> decide

/-- A passage takes place: the formula of the encounter is true, or the distances straddle the window. -/
def Holds (I : Interpretation) (k : Band) (formulas : Encounter → Term) : Passage → Prop
  | encounter e => I.Satisfies (formulas e)
  | straddling => straddling.Timed (I.amount k.a) (I.amount k.b) (I.amount k.lo) (I.amount k.hi)

/-- One passage takes place if the formulas of the encounters say no more than their timing. -/
theorem existsUnique_holds {I : Interpretation} {k : Band} {formulas : Encounter → Term}
    (hformulas : ∀ e, I.Satisfies (formulas e) ↔
      e.Timed (I.amount k.a) (I.amount k.b) (I.amount k.lo) (I.amount k.hi))
    (hwindow : I.amount k.lo ≤ I.amount k.hi) : ∃! p : Passage, p.Holds I k formulas := by
  have hholds : ∀ p : Passage, p.Holds I k formulas ↔
      p.Timed (I.amount k.a) (I.amount k.b) (I.amount k.lo) (I.amount k.hi) := by
    intro p
    cases p with
    | encounter e => exact hformulas e
    | straddling => exact Iff.rfl
  simp only [hholds, timed_iff hwindow]
  exact existsUnique_eq

end Passage

/-! ## Sides of the band -/

/-- A line that is not along the road has each lateral offset at one distance. -/
theorem Place.exists_after_eq_iff {origin v : Place} (hv : v.l ≠ 0) {offset s : Rat} :
    (∃ t, origin.after v t = ⟨offset, s⟩) ↔ s = (offset - origin.l) / v.l * v.s + origin.s := by
  constructor
  · rintro ⟨t, ht⟩
    obtain ⟨hl, hs⟩ := Place.mk.inj ht
    have htime : (offset - origin.l) / v.l = t := by
      rw [← hl, add_sub_cancel_left, mul_div_cancel_right₀ t hv]
    rw [htime, ← hs, add_comm]
  · rintro rfl
    refine ⟨(offset - origin.l) / v.l, Place.ext ?_ (add_comm _ _)⟩
    show origin.l + (offset - origin.l) / v.l * v.l = offset
    rw [div_mul_cancel₀ _ hv]
    ring

namespace Encounter

variable {I : Interpretation} {ego obstacle : TrafficObject} {m n : Motion}

/-- Division is only relied on for divisors that are not zero. -/
theorem eq_amount_passesAt_iff (hdiv : ∀ x y, y ≠ 0 → I.divide x y = x / y) {v : Point} (hv : I.amount v.l ≠ 0)
    (offset : Term) (s : Rat) :
    s = I.amount (passesAt obstacle v offset) ↔
      ∃ t, (I.place obstacle.pos).after (I.place v) t = ⟨I.amount offset, s⟩ := by
  rw [Place.exists_after_eq_iff hv, passesAt, I.amount_add, I.amount_mul, I.amount_div, hdiv _ _ hv]
  rfl

/-! ## Formulas of encounters -/

theorem formula_eq_none_iff (e : Encounter) :
    e.formula ego obstacle = none ↔ ego.motion = none ∨ obstacle.motion = none := by
  rw [← Option.not_isSome_iff_eq_none, Operator.encounter_isSome, not_and_or, Option.not_isSome_iff_eq_none,
    Option.not_isSome_iff_eq_none]

theorem formula_of_moving (e : Encounter) (hm : ego.motion = some m) (hn : obstacle.motion = some n) :
    e.formula ego obstacle = some (do
      let paths ← meets m.trajectory.contains n.trajectory.contains
      return .and [e.timing (.between ego obstacle n.v), paths]) := by
  rw [formula, hm, hn]

/-- An encounter takes place if the trajectories meet and the distances are right. -/
theorem satisfies_formula {e : Encounter} {f : Naming Term} {names : NameSupply} (hm : ego.motion = some m)
    (hn : obstacle.motion = some n) (hf : e.formula ego obstacle = some f)
    (hspare : AllSpare names.nextPoint (m.trajectory.terms ++ n.trajectory.terms)) :
    let k := Band.between ego obstacle n.v
    I.Satisfies (f.run names).1 ↔
      e.Timed (I.amount k.a) (I.amount k.b) (I.amount k.lo) (I.amount k.hi) ∧
        (Figure.line m.trajectory).Meets I (.line n.trajectory) := by
  intro k
  obtain ⟨hspare, hspare'⟩ := allSpare_append.1 hspare
  have hpaths : I.Satisfies ((meets m.trajectory.contains n.trajectory.contains).run names).1 ↔
      (Figure.line m.trajectory).Meets I (.line n.trajectory) := by
    rw [satisfies_meets (Line.satisfies_named hspare) (Line.satisfies_named hspare')]
    simp only [Figure.Meets, Figure.has_line]
    rfl
  cases (e.formula_of_moving hm hn).symm.trans hf
  exact (I.satisfies_and_pair _ _).trans (and_congr (e.satisfies_timing I k) hpaths)

/-- The window is not empty. -/
theorem lo_le_hi (hego : 0 ≤ I.amount ego.size.s) (hobstacle : 0 ≤ I.amount obstacle.size.s) (v : Point) :
    I.amount (Band.between ego obstacle v).lo ≤ I.amount (Band.between ego obstacle v).hi := by
  show I.amount ego.pos.s - (I.amount ego.size.s + I.amount obstacle.size.s) ≤
    I.amount ego.pos.s + (I.amount ego.size.s + I.amount obstacle.size.s)
  linarith

/-- Obstacles whose trajectory meets that of the vehicle pass in one way: in one of the three encounters or
straddling the window. Others do not pass at all. Unless both objects move there is nothing to ask, and the
request fails without taking a name. -/
theorem passages_partition (ego obstacle : TrafficObject) :
    (∀ e : Encounter, e.formula ego obstacle = none ↔ ego.motion = none ∨ obstacle.motion = none) ∧
    (∀ (e : Encounter) (names : NameSupply), e.formula ego obstacle = none →
      (Operator.encounter e (.value (.object ego)) (.value (.object obstacle))).run.run names =
        (.error (.notMoving ego.kind obstacle.kind), names)) ∧
    ∀ m n : Motion, ego.motion = some m → obstacle.motion = some n →
      ∃ f : Encounter → Naming Term, (∀ e, e.formula ego obstacle = some (f e)) ∧
      (∀ e names, ((f e).run names).2 = ⟨names.issued + 1⟩) ∧
      ∀ I : Interpretation,
        (∀ supply : Encounter → NameSupply,
          (∀ e, AllSpare (supply e).nextPoint (m.trajectory.terms ++ n.trajectory.terms)) →
          (0 ≤ I.amount ego.size.s → 0 ≤ I.amount obstacle.size.s →
            (Figure.line m.trajectory).Meets I (.line n.trajectory) →
            ∃! p : Passage, p.Holds I (.between ego obstacle n.v) fun e => ((f e).run (supply e)).1) ∧
          (¬ (Figure.line m.trajectory).Meets I (.line n.trajectory) →
            ∀ e, ¬ I.Satisfies ((f e).run (supply e)).1)) ∧
        ((∀ x y, y ≠ 0 → I.divide x y = x / y) → I.amount n.v.l ≠ 0 → ∀ s : Rat,
          (s = I.amount (Band.between ego obstacle n.v).a ↔ ∃ t, (I.place obstacle.pos).after (I.place n.v) t =
            ⟨-(I.amount ego.size.l + I.amount obstacle.size.l), s⟩) ∧
          (s = I.amount (Band.between ego obstacle n.v).b ↔ ∃ t, (I.place obstacle.pos).after (I.place n.v) t =
            ⟨I.amount ego.size.l + I.amount obstacle.size.l, s⟩)) := by
  refine ⟨fun e => e.formula_eq_none_iff, fun e names hnone => ?_, fun m n hm hn => ?_⟩
  · show (Operator.spatial (e.formula ego obstacle) (.notMoving ego.kind obstacle.kind)).run.run names = _
    rw [hnone]
    rfl
  · refine ⟨_, fun e => e.formula_of_moving hm hn, fun e names => rfl, fun I => ?_⟩
    refine ⟨fun supply hspare => ?_, fun hdiv hv s => ?_⟩
    · have hformula := fun e => satisfies_formula (I := I) hm hn (e.formula_of_moving hm hn) (hspare e)
      refine ⟨fun hego hobstacle hmeets => ?_, fun hmeets e h => hmeets ((hformula e).1 h).2⟩
      exact Passage.existsUnique_holds (fun e => (hformula e).trans (and_iff_left hmeets)) (lo_le_hi hego hobstacle n.v)
    · exact ⟨eq_amount_passesAt_iff hdiv hv _ s, eq_amount_passesAt_iff hdiv hv _ s⟩

/-- A vehicle overtakes on a slant: it passes the very place of the other one, but it comes into the band
long before the window and leaves it far beyond, so that none of the encounters takes place. A crosswalk
does not move, and asking about it takes no name. -/
theorem passages_partition_on_slant :
    let ego := TrafficObject.ofKind .vehicle "ego"
    let obstacle := TrafficObject.ofKind .vehicle "0"
    let walk := TrafficObject.ofKind .crosswalk "0"
    let scene : List (String × Rat) :=
      [("vehicle_ego_size_l", 2), ("vehicle_ego_size_s", 2), ("vehicle_ego_v_s", 1),
        ("vehicle_0_pos_l", -5), ("vehicle_0_pos_s", -20), ("vehicle_0_size_l", 2), ("vehicle_0_size_s", 2),
        ("vehicle_0_v_l", 1), ("vehicle_0_v_s", 4)]
    let I : Interpretation := ⟨fun name => .number ((scene.lookup name).getD 0), fun x y => x / y⟩
    (Encounter.cross.formula ego walk = none ∧
      (Operator.encounter .cross (.value (.object ego)) (.value (.object walk))).run.run .initial =
        (.error (.notMoving .vehicle .crosswalk), .initial)) ∧
    ∃ m n : Motion, ego.motion = some m ∧ obstacle.motion = some n ∧
      AllSpare NameSupply.initial.nextPoint (m.trajectory.terms ++ n.trajectory.terms) ∧
      0 ≤ I.amount ego.size.s ∧ 0 ≤ I.amount obstacle.size.s ∧
      (Figure.line m.trajectory).Meets I (.line n.trajectory) ∧ I.amount n.v.l ≠ 0 ∧
      (∃ t, (I.place obstacle.pos).after (I.place n.v) t = ⟨-4, -16⟩) ∧
      ∀ (e : Encounter) (f : Naming Term), e.formula ego obstacle = some f → ¬ I.Satisfies (f.run .initial).1 := by
  intro ego obstacle walk scene I
  let m := Motion.ofVelocity ego.pos (.named "vehicle_ego_v")
  let n := Motion.ofVelocity obstacle.pos (.named "vehicle_0_v")
  have hmarks : ∀ t ∈ m.trajectory.terms ++ n.trajectory.terms, t.Unmarked := by
    simp only [Term.unmarked_iff]
    decide
  have hspare : AllSpare NameSupply.initial.nextPoint (m.trajectory.terms ++ n.trajectory.terms) :=
    fun t ht => (hmarks t ht).spares _
  have hego : 0 ≤ I.amount ego.size.s := by decide +kernel
  have hobstacle : 0 ≤ I.amount obstacle.size.s := by decide +kernel
  have hpos : I.place obstacle.pos = ⟨-5, -20⟩ := Place.ext (by decide +kernel) (by decide +kernel)
  have hv : I.place n.v = ⟨1, 4⟩ := Place.ext (by decide +kernel) (by decide +kernel)
  have hslant : I.amount n.v.l ≠ 0 := by decide +kernel
  have hmeets : (Figure.line m.trajectory).Meets I (.line n.trajectory) := by
    have hcommon : (I.place ego.pos).after (I.place m.v) 0 = (I.place obstacle.pos).after (I.place n.v) 5 := by
      rw [Place.after_zero, hpos, hv]
      exact Place.ext (by decide +kernel) (by decide +kernel)
    have hlast : (5 : Rat) ≤ I.amount (.int trajectoryHorizon) := by norm_num [trajectoryHorizon]
    have hego : (I.place ego.pos).after (I.place m.v) 0 ∈ m.trajectory.points I :=
      Line.after_mem_trajectory I _ _ le_rfl (hlast.trans' (by norm_num))
    have hobstacle : (I.place obstacle.pos).after (I.place n.v) 5 ∈ n.trajectory.points I :=
      Line.after_mem_trajectory I _ _ (by norm_num) hlast
    exact ⟨_, Figure.has_line.2 hego, Figure.has_line.2 (hcommon ▸ hobstacle)⟩
  obtain ⟨-, -, hpasses⟩ := passages_partition ego obstacle
  obtain ⟨f, hf, -, hcases⟩ := hpasses m n rfl rfl
  obtain ⟨hsupply, hsides⟩ := hcases I
  obtain ⟨_, -, honly⟩ := (hsupply (fun _ => .initial) fun _ => hspare).1 hego hobstacle hmeets
  have hstraddling : Passage.straddling.Holds I (.between ego obstacle n.v) fun e => ((f e).run .initial).1 :=
    .inl (by decide +kernel)
  refine ⟨⟨rfl, (passages_partition ego walk).2.1 .cross .initial rfl⟩, m, n, rfl, rfl, hspare, hego, hobstacle, hmeets,
    hslant, ?_, ?_⟩
  · have hreach : -(I.amount ego.size.l + I.amount obstacle.size.l) = -4 := by decide +kernel
    rw [← hreach]
    exact (hsides (fun x y _ => rfl) hslant (-16)).1.1 (by decide +kernel)
  · intro e g hg hsat
    cases (hf e).symm.trans hg
    have hsame : Passage.straddling = .encounter e := (honly _ hstraddling).trans (honly (.encounter e) hsat).symm
    cases hsame

end Encounter

end RoadPolicy
