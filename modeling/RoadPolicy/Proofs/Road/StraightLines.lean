/-
Lines as paths. Whatever moves with a constant velocity is, after some time, at its start plus the
velocity times the time. The formulas of rays and trajectories only multiply, compare signs and
compare squares, yet they hold of exactly the places that are reached so. The formula of a segment
compares lateral offsets only: it is right as long as the ends differ in theirs, and otherwise it
takes in the whole line along the road.
-/
import RoadPolicy.Formula.Eval
import RoadPolicy.Proofs.Road.PointSets
import RoadPolicy.Road.Object

namespace RoadPolicy

namespace Place

/-- Where one is some time after leaving an origin with a constant velocity. -/
def after (origin v : Place) (t : Rat) : Place := ⟨origin.l + t * v.l, origin.s + t * v.s⟩

/-- The velocity that leads from one place to another in one unit of time. -/
def wayTo (start stop : Place) : Place := ⟨stop.l - start.l, stop.s - start.s⟩

/-- The point with literals for coordinates. -/
def point (x : Place) : Point := ⟨.real x.l, .real x.s⟩

theorem after_zero (origin v : Place) : origin.after v 0 = origin := by simp [after]

/-- The square of the speed. -/
def squareNorm (v : Place) : Rat := v.l * v.l + v.s * v.s

theorem squareNorm_pos {v : Place} (h : v ≠ ⟨0, 0⟩) : 0 < v.squareNorm := by
  unfold squareNorm
  by_cases hl : v.l = 0
  · have hs : v.s ≠ 0 := fun hs => h (Place.ext hl hs)
    have := mul_self_pos.2 hs
    have := mul_self_nonneg v.l
    linarith
  · have := mul_self_pos.2 hl
    have := mul_self_nonneg v.s
    linarith

theorem squareDistance_after (origin v : Place) (t : Rat) :
    origin.squareDistance (origin.after v t) = t ^ 2 * v.squareNorm := by
  unfold squareDistance after squareNorm
  ring

theorem eq_of_squareDistance_le_zero {x y : Place} (h : x.squareDistance y ≤ 0) : y = x := by
  unfold squareDistance at h
  have hl := mul_self_nonneg (y.l - x.l)
  have hs := mul_self_nonneg (y.s - x.s)
  have hl0 : y.l - x.l = 0 := mul_self_eq_zero.1 (by linarith)
  have hs0 : y.s - x.s = 0 := mul_self_eq_zero.1 (by linarith)
  exact Place.ext (by linarith) (by linarith)

/-! ## Rays -/

theorem after_mem_ray (origin v : Place) {t : Rat} (ht : 0 ≤ t) : origin.after v t ∈ ray origin v := by
  have hl : v.l * (origin.l + t * v.l - origin.l) = t * (v.l * v.l) := by ring
  have hs : v.s * (origin.s + t * v.s - origin.s) = t * (v.s * v.s) := by ring
  refine ⟨?_, ?_, ?_⟩
  · show v.l * (origin.s + t * v.s - origin.s) = v.s * (origin.l + t * v.l - origin.l)
    ring
  · show 0 ≤ v.s * (origin.s + t * v.s - origin.s)
    rw [hs]
    exact mul_nonneg ht (mul_self_nonneg _)
  · show 0 ≤ v.l * (origin.l + t * v.l - origin.l)
    rw [hl]
    exact mul_nonneg ht (mul_self_nonneg _)

/-- A ray with a direction is what is reached from its origin. -/
theorem mem_ray_iff {origin v x : Place} (h : v ≠ ⟨0, 0⟩) :
    x ∈ ray origin v ↔ ∃ t, 0 ≤ t ∧ x = origin.after v t := by
  constructor
  · rintro ⟨hline, hs, hl⟩
    have hpos := squareNorm_pos h
    -- the time is the projection of the way onto the direction
    refine ⟨(v.l * (x.l - origin.l) + v.s * (x.s - origin.s)) / v.squareNorm, ?_, ?_⟩
    · exact div_nonneg (add_nonneg hl hs) hpos.le
    · ext
      · have hproj : (v.l * (x.l - origin.l) + v.s * (x.s - origin.s)) * v.l = (x.l - origin.l) * v.squareNorm := by
          unfold squareNorm
          linear_combination v.s * hline
        show x.l = origin.l + _ / v.squareNorm * v.l
        rw [div_mul_eq_mul_div, hproj, mul_div_cancel_right₀ _ hpos.ne']
        ring
      · have hproj : (v.l * (x.l - origin.l) + v.s * (x.s - origin.s)) * v.s = (x.s - origin.s) * v.squareNorm := by
          unfold squareNorm
          linear_combination -v.l * hline
        show x.s = origin.s + _ / v.squareNorm * v.s
        rw [div_mul_eq_mul_div, hproj, mul_div_cancel_right₀ _ hpos.ne']
        ring
  · rintro ⟨t, ht, rfl⟩
    exact after_mem_ray origin v ht

/-- A ray along the road does not leave it. -/
theorem ray_along {v x : Place} (hl : v.l = 0) (hs : 0 < v.s) (hx : x ∈ ray ⟨0, 0⟩ v) : x.l = 0 ∧ 0 ≤ x.s := by
  obtain ⟨hline, hahead, -⟩ := hx
  rw [hl, sub_zero, sub_zero, zero_mul] at hline
  rw [sub_zero] at hahead
  exact ⟨(mul_eq_zero.1 hline.symm).resolve_left hs.ne', nonneg_of_mul_nonneg_right hahead hs⟩

/-- The part of a ray within the distance that is covered in a given time is what is reached in that
time. At rest nothing but the origin is, although the ray then has no direction. -/
theorem mem_ray_within_iff {origin v x : Place} {horizon : Rat} (h : 0 ≤ horizon) :
    x ∈ ray origin v ∩ within origin (horizon ^ 2 * v.squareNorm) ↔
      ∃ t, 0 ≤ t ∧ t ≤ horizon ∧ x = origin.after v t := by
  constructor
  · rintro ⟨hray, hwithin⟩
    by_cases hv : v = ⟨0, 0⟩
    · subst hv
      have hx : x = origin := eq_of_squareDistance_le_zero (hwithin.trans_eq (by simp [squareNorm]))
      exact ⟨0, le_rfl, h, by rw [hx]; simp [after]⟩
    · obtain ⟨t, ht, rfl⟩ := (mem_ray_iff hv).1 hray
      have hsquares : t ^ 2 * v.squareNorm ≤ horizon ^ 2 * v.squareNorm := by
        rw [← squareDistance_after origin v t]
        exact hwithin
      have hle : t ^ 2 ≤ horizon ^ 2 := le_of_mul_le_mul_right hsquares (squareNorm_pos hv)
      exact ⟨t, ht, (sq_le_sq₀ ht h).1 hle, rfl⟩
  · rintro ⟨t, ht, hle, rfl⟩
    refine ⟨after_mem_ray origin v ht, ?_⟩
    show origin.squareDistance (origin.after v t) ≤ _
    rw [squareDistance_after]
    have hsq : t ^ 2 ≤ horizon ^ 2 := (sq_le_sq₀ ht h).2 hle
    exact mul_le_mul_of_nonneg_right hsq (add_nonneg (mul_self_nonneg _) (mul_self_nonneg _))

/-! ## Segments -/

/-- The straight path from one place to another. -/
def path (start stop : Place) : Set Place := {x | ∃ t, 0 ≤ t ∧ t ≤ 1 ∧ x = start.after (start.wayTo stop) t}

theorem after_mem_segment (start stop : Place) {t : Rat} (h0 : 0 ≤ t) (h1 : t ≤ 1) :
    start.after (start.wayTo stop) t ∈ segment start stop := by
  constructor
  · show (stop.s - start.s) * (stop.l - (start.l + t * (stop.l - start.l))) =
      (stop.s - (start.s + t * (stop.s - start.s))) * (stop.l - start.l)
    ring
  · show start.l ≤ start.l + t * (stop.l - start.l) ∧ start.l + t * (stop.l - start.l) ≤ stop.l ∨
      stop.l ≤ start.l + t * (stop.l - start.l) ∧ start.l + t * (stop.l - start.l) ≤ start.l
    rcases le_total start.l stop.l with h | h
    · exact .inl ⟨by nlinarith, by nlinarith⟩
    · exact .inr ⟨by nlinarith, by nlinarith⟩

/-- The formula of a segment takes in what lies between the ends, and everything else with their
offset if they have the same one. -/
theorem mem_segment_iff {start stop x : Place} :
    x ∈ segment start stop ↔ x ∈ path start stop ∨ start.l = stop.l ∧ x.l = start.l := by
  constructor
  · rintro ⟨hline, hbetween⟩
    by_cases hsame : start.l = stop.l
    · right
      refine ⟨hsame, ?_⟩
      rcases hbetween with ⟨h1, h2⟩ | ⟨h1, h2⟩ <;> linarith
    · left
      have hne : stop.l - start.l ≠ 0 := fun h => hsame (by linarith)
      have hl : (x.l - start.l) / (stop.l - start.l) * (stop.l - start.l) = x.l - start.l := div_mul_cancel₀ _ hne
      refine ⟨(x.l - start.l) / (stop.l - start.l), ?_, ?_, ?_⟩
      · rcases hbetween with ⟨h1, h2⟩ | ⟨h1, h2⟩
        · exact div_nonneg (by linarith) (by linarith)
        · exact div_nonneg_of_nonpos (by linarith) (by linarith)
      · rcases hbetween with ⟨h1, h2⟩ | ⟨h1, h2⟩
        · exact div_le_one_of_le₀ (by linarith) (by linarith)
        · exact div_le_one_of_ge (by linarith) (by linarith)
      · ext
        · show x.l = start.l + _ * (stop.l - start.l)
          linarith
        · show x.s = start.s + _ * (stop.s - start.s)
          refine mul_right_cancel₀ hne ?_
          linear_combination hline - (stop.s - start.s) * hl
  · rintro (⟨t, h0, h1, rfl⟩ | ⟨hsame, hx⟩)
    · exact after_mem_segment start stop h0 h1
    · constructor
      · rw [hx, hsame]
        ring
      · exact .inl ⟨hx.ge, by rw [hx, hsame]⟩

/-- Along the road a path ends, at the latest, with the sum of the magnitudes of its ends. -/
theorem not_mem_path {start stop x : Place} (h : x.s = |start.s| + |stop.s| + 1) : x ∉ path start stop := by
  rintro ⟨t, h0, h1, rfl⟩
  have hs : start.s + t * (stop.s - start.s) = |start.s| + |stop.s| + 1 := h
  have hstart := mul_le_mul_of_nonneg_left (le_abs_self start.s) (sub_nonneg.2 h1)
  have hstop := mul_le_mul_of_nonneg_left (le_abs_self stop.s) h0
  have := mul_nonneg h0 (abs_nonneg start.s)
  have := mul_nonneg (sub_nonneg.2 h1) (abs_nonneg stop.s)
  linarith

end Place

/-! ## Formulas of lines -/

/-- The formula of a segment is true of the path between its ends and, if these have the same lateral
offset, of every other place with that offset. So it means the path exactly if the offsets differ. -/
theorem Line.contains_segment_iff_path (I : Interpretation) (start stop : Point) :
    (∀ p : Point, I.Satisfies ((Line.segment start stop).contains p) ↔
      I.place p ∈ Place.path (I.place start) (I.place stop) ∨
        (I.place start).l = (I.place stop).l ∧ (I.place p).l = (I.place start).l) ∧
    ((∀ p : Point, I.Satisfies ((Line.segment start stop).contains p) ↔
        I.place p ∈ Place.path (I.place start) (I.place stop)) ↔
      (I.place start).l ≠ (I.place stop).l) := by
  have hcontains : ∀ p : Point, I.Satisfies ((Line.segment start stop).contains p) ↔
      I.place p ∈ Place.path (I.place start) (I.place stop) ∨
        (I.place start).l = (I.place stop).l ∧ (I.place p).l = (I.place start).l :=
    fun p => (satisfies_contains I _ p).trans Place.mem_segment_iff
  refine ⟨hcontains, ?_⟩
  constructor
  · intro hpath hsame
    -- a place beyond both ends
    let x : Place := ⟨(I.place start).l, |(I.place start).s| + |(I.place stop).s| + 1⟩
    have hx : x ∉ Place.path (I.place start) (I.place stop) := Place.not_mem_path rfl
    exact hx ((hpath x.point).1 ((hcontains x.point).2 (.inr ⟨hsame, rfl⟩)))
  · intro hdiffer p
    rw [hcontains, or_iff_left]
    rintro ⟨hsame, -⟩
    exact hdiffer hsame

/-- A segment of eight units along the road: a place far ahead of both ends counts as lying on it. -/
theorem Line.contains_segment_along_road :
    let I : Interpretation := ⟨fun _ => .number 0, fun x y => x / y⟩
    let start : Point := ⟨.int 0, .int 0⟩
    let stop : Point := ⟨.int 0, .int 8⟩
    let p : Point := ⟨.int 0, .int 20⟩
    ((Line.segment start stop).contains p).holds .empty = .ok true ∧
      I.Satisfies ((Line.segment start stop).contains p) ∧
      ¬ ∃ t, 0 ≤ t ∧ t ≤ 1 ∧ I.place p = (I.place start).after ((I.place start).wayTo (I.place stop)) t := by
  intro I start stop p
  refine ⟨by decide +kernel, ?_, ?_⟩
  · rw [satisfies_contains]
    exact Place.mem_segment_iff.2 (.inr ⟨rfl, rfl⟩)
  · rintro ⟨t, -, h1, hp⟩
    have hs : (20 : Rat) = 0 + t * (8 - 0) := congrArg Place.s hp
    linarith

/-- A trajectory has the places that are reached before its horizon. -/
theorem Line.after_mem_trajectory (I : Interpretation) (origin v : Point) {horizon : Term} {t : Rat} (h0 : 0 ≤ t)
    (ht : t ≤ I.amount horizon) :
    (I.place origin).after (I.place v) t ∈ (Line.trajectory origin v horizon).points I := by
  refine ⟨Place.after_mem_ray _ _ h0, ?_⟩
  show (I.place origin).squareDistance _ ≤ _
  have hsquares : t ^ 2 ≤ I.amount horizon ^ 2 := pow_le_pow_left₀ h0 ht 2
  calc (I.place origin).squareDistance ((I.place origin).after (I.place v) t)
      = t ^ 2 * (I.place v).squareNorm := Place.squareDistance_after _ _ t
    _ ≤ I.amount horizon ^ 2 * (I.place v).squareNorm :=
        mul_le_mul_of_nonneg_right hsquares (add_nonneg (mul_self_nonneg _) (mul_self_nonneg _))
    _ = (I.amount v.l * I.amount horizon) ^ 2 + (I.amount v.s * I.amount horizon) ^ 2 := by
        unfold Place.squareNorm Interpretation.place
        ring

/-- Trajectories, rays and limited rays are true of what is reached from their origin: in the time
up to the horizon, at any time, and within the length. -/
theorem Line.contains_iff_reached (I : Interpretation) (origin v p : Point) :
    (∀ horizon : Term, 0 ≤ I.amount horizon →
      (I.Satisfies ((Line.trajectory origin v horizon).contains p) ↔
        ∃ t, 0 ≤ t ∧ t ≤ I.amount horizon ∧ I.place p = (I.place origin).after (I.place v) t)) ∧
    (I.place v ≠ ⟨0, 0⟩ →
      (I.Satisfies ((Line.ray origin v).contains p) ↔
        ∃ t, 0 ≤ t ∧ I.place p = (I.place origin).after (I.place v) t) ∧
      ∀ length : Term, I.Satisfies ((Line.limitedRay origin v length).contains p) ↔
        (∃ t, 0 ≤ t ∧ I.place p = (I.place origin).after (I.place v) t) ∧
          (I.place origin).squareDistance (I.place p) ≤ I.amount length ^ 2) := by
  constructor
  · intro horizon hhorizon
    have hreach : (I.amount v.l * I.amount horizon) ^ 2 + (I.amount v.s * I.amount horizon) ^ 2 =
        I.amount horizon ^ 2 * (I.place v).squareNorm := by
      unfold Place.squareNorm Interpretation.place
      ring
    rw [satisfies_contains, points, hreach, Place.mem_ray_within_iff hhorizon]
  · intro hv
    have hray : I.place p ∈ Place.ray (I.place origin) (I.place v) ↔
        ∃ t, 0 ≤ t ∧ I.place p = (I.place origin).after (I.place v) t := Place.mem_ray_iff hv
    refine ⟨?_, fun length => ?_⟩
    · rw [satisfies_contains, points, hray]
    · rw [satisfies_contains, points, Set.mem_inter_iff, hray]
      rfl

/-- An object at rest stays at its place for the seven seconds of its trajectory, and a ray to the
left, limited to three units or not, is made of the places to the left. -/
theorem Line.contains_iff_reached_at_rest :
    let I : Interpretation := ⟨fun _ => .number 0, fun x y => x / y⟩
    let origin : Point := ⟨.int 1, .int 2⟩
    let v : Point := .named "pedestrian_0_v"
    let left : Point := ⟨.int (-1), .int 0⟩
    let p : Point := ⟨.int (-1), .int 2⟩
    0 ≤ I.amount (.int trajectoryHorizon) ∧
      (I.Satisfies ((Motion.ofVelocity origin v).trajectory.contains p) ↔
        ∃ t, 0 ≤ t ∧ t ≤ 7 ∧ I.place p = (I.place origin).after (I.place v) t) ∧
      I.place left ≠ ⟨0, 0⟩ ∧
      (I.Satisfies ((Line.ray origin left).contains p) ↔
        ∃ t, 0 ≤ t ∧ I.place p = (I.place origin).after (I.place left) t) ∧
      (I.Satisfies ((Line.limitedRay origin left (.int 3)).contains p) ↔
        (∃ t, 0 ≤ t ∧ I.place p = (I.place origin).after (I.place left) t) ∧
          (I.place origin).squareDistance (I.place p) ≤ I.amount (.int 3) ^ 2) := by
  intro I origin v left p
  have hhorizon : 0 ≤ I.amount (.int trajectoryHorizon) := by norm_num [trajectoryHorizon]
  have hleft : I.place left ≠ ⟨0, 0⟩ := by
    intro h
    have hl : (-1 : Rat) = 0 := congrArg Place.l h
    norm_num at hl
  have htrajectory := (Line.contains_iff_reached I origin v p).1 _ hhorizon
  have hrays := (Line.contains_iff_reached I origin left p).2 hleft
  exact ⟨hhorizon, htrajectory, hleft, hrays.1, hrays.2 (.int 3)⟩

end RoadPolicy
