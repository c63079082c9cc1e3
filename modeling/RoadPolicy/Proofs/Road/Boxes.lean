/-
Boxes around a center. In each coordinate a box is the interval of what is at most a half extent away
from the center. Two intervals meet if the centers are no farther apart than both of them reach, and one
lies in the other if its far end does; so the quantified relations between boxes come down to comparisons
of numbers, which do not have to try any point.
-/
import RoadPolicy.Proofs.Road.Coordinates
import RoadPolicy.Proofs.Road.SortedValues
import RoadPolicy.Road.Object

namespace RoadPolicy

/-! ## Intervals -/

section

variable {c c' r r' : Rat}

theorem exists_near_both_iff (hr : 0 ≤ r) (hr' : 0 ≤ r') :
    (∃ x, |x - c| ≤ r ∧ |x - c'| ≤ r') ↔ |c - c'| ≤ r + r' := by
  constructor
  · rintro ⟨x, hx, hx'⟩
    rw [abs_sub_comm] at hx
    calc |c - c'| ≤ |c - x| + |x - c'| := abs_sub_le c x c'
      _ ≤ r + r' := add_le_add hx hx'
  · intro h
    obtain ⟨hlow, hhigh⟩ := abs_le.1 h
    -- the larger of the lower ends is in both
    rcases le_total (c - r) (c' - r') with hle | hle
    · refine ⟨c' - r', abs_le.2 ⟨?_, ?_⟩, abs_le.2 ⟨?_, ?_⟩⟩ <;> linarith
    · refine ⟨c - r, abs_le.2 ⟨?_, ?_⟩, abs_le.2 ⟨?_, ?_⟩⟩ <;> linarith

theorem forall_near_iff (hr : 0 ≤ r) : (∀ x, |x - c| ≤ r → |x - c'| ≤ r') ↔ |c - c'| + r ≤ r' := by
  constructor
  · intro h
    -- the end that is on the far side of the other center
    rcases le_total c' c with hle | hle
    · have hend := h (c + r) (abs_le.2 ⟨by linarith, by linarith⟩)
      rw [abs_of_nonneg (sub_nonneg.2 hle)]
      linarith [(abs_le.1 hend).2]
    · have hend := h (c - r) (abs_le.2 ⟨by linarith, by linarith⟩)
      rw [abs_of_nonpos (sub_nonpos.2 hle)]
      linarith [(abs_le.1 hend).1]
  · intro h x hx
    calc |x - c'| ≤ |x - c| + |c - c'| := abs_sub_le x c c'
      _ ≤ r' := by linarith

end

/-! ## Boxes -/

namespace Place

variable {center half center' half' : Place}

theorem box_inter_box_nonempty_iff (hl : 0 ≤ half.l) (hs : 0 ≤ half.s) (hl' : 0 ≤ half'.l) (hs' : 0 ≤ half'.s) :
    (box center half ∩ box center' half').Nonempty ↔
      |center.l - center'.l| ≤ half.l + half'.l ∧ |center.s - center'.s| ≤ half.s + half'.s := by
  rw [← exists_near_both_iff hl hl', ← exists_near_both_iff hs hs']
  constructor
  · rintro ⟨x, hx, hx'⟩
    exact ⟨⟨x.l, hx.1, hx'.1⟩, ⟨x.s, hx.2, hx'.2⟩⟩
  · rintro ⟨⟨l, hl, hl'⟩, ⟨s, hs, hs'⟩⟩
    exact ⟨⟨l, s⟩, ⟨hl, hs⟩, ⟨hl', hs'⟩⟩

theorem box_subset_box_iff (hl : 0 ≤ half.l) (hs : 0 ≤ half.s) :
    box center half ⊆ box center' half' ↔
      |center.l - center'.l| + half.l ≤ half'.l ∧ |center.s - center'.s| + half.s ≤ half'.s := by
  rw [← forall_near_iff hl, ← forall_near_iff hs]
  constructor
  · intro h
    -- either coordinate can be moved while the other one stays at the center
    have hcl : |center.l - center.l| ≤ half.l := by simpa using hl
    have hcs : |center.s - center.s| ≤ half.s := by simpa using hs
    refine ⟨fun l hl => ?_, fun s hs => ?_⟩
    · exact (@h ⟨l, center.s⟩ ⟨hl, hcs⟩).1
    · exact (@h ⟨center.l, s⟩ ⟨hcl, hs⟩).2
  · rintro ⟨hl, hs⟩ x hx
    exact ⟨hl x.l hx.1, hs x.s hx.2⟩

/-- A box lies between its least and its greatest corner. -/
theorem box_eq_between (center half : Place) :
    box center half = between ⟨center.l - half.l, center.s - half.s⟩ ⟨center.l + half.l, center.s + half.s⟩ := by
  have hside : ∀ x c r : Rat, |x - c| ≤ r ↔ c - r ≤ x ∧ x ≤ c + r := by
    intro x c r
    rw [abs_le]
    constructor
    · rintro ⟨hlow, hhigh⟩
      exact ⟨by linarith, by linarith⟩
    · rintro ⟨hlow, hhigh⟩
      exact ⟨by linarith, by linarith⟩
  ext x
  exact and_congr (hside _ _ _) (hside _ _ _)

end Place

/-! ## Formulas of boxes -/

namespace Area

/-- The corners of a box, as points. -/
theorem points_centered (I : Interpretation) (center half : Point) :
    (centered center half).points I =
      (bounded ⟨center.l - half.l, center.s - half.s⟩ ⟨center.l + half.l, center.s + half.s⟩).points I :=
  Place.box_eq_between _ _

/-- Boxes meet, lie in each other and have points as a comparison of their numbers says. The constants
of the boxes must not be captured by the point that a relation binds; of the points that can be bound,
those from some number on are never captured. -/
theorem boxes_in_closed_form (I : Interpretation) :
    (∀ (names : NameSupply) (center half center' half' : Point),
      AllSpare names.nextPoint ((centered center half).terms ++ (centered center' half').terms) →
      0 ≤ I.amount half.l → 0 ≤ I.amount half.s → 0 ≤ I.amount half'.l → 0 ≤ I.amount half'.s →
      (I.Satisfies ((meets (centered center half).contains (centered center' half').contains).run names).1 ↔
        |I.amount center.l - I.amount center'.l| ≤ I.amount half.l + I.amount half'.l ∧
          |I.amount center.s - I.amount center'.s| ≤ I.amount half.s + I.amount half'.s) ∧
      (I.Satisfies ((includedIn (centered center half).contains (centered center' half').contains).run names).1 ↔
        |I.amount center.l - I.amount center'.l| + I.amount half.l ≤ I.amount half'.l ∧
          |I.amount center.s - I.amount center'.s| + I.amount half.s ≤ I.amount half'.s)) ∧
    (∀ a b : Area, ∃ n, ∀ names : NameSupply, n ≤ names.issued → AllSpare names.nextPoint (a.terms ++ b.terms)) ∧
    (∀ center half p : Point, I.Satisfies ((centered center half).contains p) ↔
      I.Satisfies
        ((bounded ⟨center.l - half.l, center.s - half.s⟩ ⟨center.l + half.l, center.s + half.s⟩).contains p)) ∧
    ∀ (o : TrafficObject) (p : Point), I.Satisfies (o.boundary.contains p) ↔
      (I.amount o.startL ≤ I.amount p.l ∧ I.amount p.l ≤ I.amount o.endL) ∧
        I.amount o.startS ≤ I.amount p.s ∧ I.amount p.s ≤ I.amount o.endS := by
  refine ⟨?_, fun a b => exists_allSpare _, ?_, ?_⟩
  · intro names center half center' half' hspare hl hs hl' hs'
    obtain ⟨hspare, hspare'⟩ := allSpare_append.1 hspare
    constructor
    · rw [satisfies_meets (satisfies_named hspare) (satisfies_named hspare')]
      exact Place.box_inter_box_nonempty_iff hl hs hl' hs'
    · rw [satisfies_includedIn (satisfies_named hspare) (satisfies_named hspare')]
      exact Place.box_subset_box_iff hl hs
  · intro center half p
    rw [satisfies_contains, satisfies_contains, points_centered]
  · intro o p
    rw [satisfies_contains, TrafficObject.boundary, points_centered]
    rfl

/-- A box, one that touches it in a corner, and one around it that shares a corner with it. -/
theorem boxes_in_closed_form_touching :
    let I : Interpretation := ⟨fun _ => .number 0, fun x y => x / y⟩
    let half : Point := ⟨.int 1, .int 1⟩
    let wide : Point := ⟨.int 2, .int 2⟩
    let a : Area := .centered ⟨.realConst "pedestrian_0_pos_l", .int 0⟩ half
    let touching : Area := .centered ⟨.int 3, .int (-3)⟩ wide
    let around : Area := .centered ⟨.int 1, .int 1⟩ wide
    (AllSpare NameSupply.initial.nextPoint (a.terms ++ touching.terms) ∧
      AllSpare NameSupply.initial.nextPoint (a.terms ++ around.terms)) ∧
    (0 ≤ I.amount half.l ∧ 0 ≤ I.amount half.s ∧ 0 ≤ I.amount wide.l ∧ 0 ≤ I.amount wide.s) ∧
    I.Satisfies ((meets a.contains touching.contains).run .initial).1 ∧
    ¬ I.Satisfies ((includedIn a.contains touching.contains).run .initial).1 ∧
    I.Satisfies ((includedIn a.contains around.contains).run .initial).1 := by
  intro I half wide a touching around
  have hmarks : ∀ b ∈ [touching, around], ∀ t ∈ a.terms ++ b.terms, t.Unmarked := by
    simp only [Term.unmarked_iff]
    decide
  have hspare : ∀ b ∈ [touching, around], AllSpare NameSupply.initial.nextPoint (a.terms ++ b.terms) :=
    fun b hb t ht => (hmarks b hb t ht).spares _
  have hhalf : 0 ≤ I.amount half.l ∧ 0 ≤ I.amount half.s ∧ 0 ≤ I.amount wide.l ∧ 0 ≤ I.amount wide.s := by
    norm_num [half, wide]
  have hstart : I.amount (.realConst "pedestrian_0_pos_l") = 0 := rfl
  obtain ⟨hboxes, -⟩ := boxes_in_closed_form I
  obtain ⟨hl, hs, hl', hs'⟩ := hhalf
  obtain ⟨htouch, hapart⟩ := hboxes .initial _ _ _ _ (hspare touching (by simp)) hl hs hl' hs'
  obtain ⟨-, haround⟩ := hboxes .initial _ _ _ _ (hspare around (by simp)) hl hs hl' hs'
  refine ⟨⟨hspare touching (by simp), hspare around (by simp)⟩, ⟨hl, hs, hl', hs'⟩, htouch.2 ?_, fun h => ?_, haround.2 ?_⟩
  · norm_num [hstart, half, wide]
  · have hfar := (hapart.1 h).1
    norm_num [hstart, half, wide] at hfar
  · norm_num [hstart, half, wide]

end Area

end RoadPolicy
