/-
Lines and areas as sets of places. In an interpretation a point stands at a place of the road plane,
and a line or an area is the set of the places on it, given by conditions on exact numbers. The
formula that says that a point belongs to a figure is true exactly if its place is in the set.
-/
import RoadPolicy.Proofs.Formula.WellSorted
import RoadPolicy.Road.Relation

namespace RoadPolicy

/-- A place of the road plane: the lateral offset and the distance along the road. -/
@[ext] structure Place where
  l : Rat
  s : Rat

namespace Place

/-- The square of the distance. -/
def squareDistance (x y : Place) : Rat := (y.l - x.l) * (y.l - x.l) + (y.s - x.s) * (y.s - x.s)

/-- The places in one line with two others, with an offset between theirs. -/
def segment (start stop : Place) : Set Place :=
  {x | (stop.s - start.s) * (stop.l - x.l) = (stop.s - x.s) * (stop.l - start.l) ∧
    (start.l ≤ x.l ∧ x.l ≤ stop.l ∨ stop.l ≤ x.l ∧ x.l ≤ start.l)}

/-- The places in a direction from an origin. -/
def ray (origin dir : Place) : Set Place :=
  {x | dir.l * (x.s - origin.s) = dir.s * (x.l - origin.l) ∧ 0 ≤ dir.s * (x.s - origin.s) ∧
    0 ≤ dir.l * (x.l - origin.l)}

/-- The places at most as far from an origin as a squared distance says. -/
def within (origin : Place) (squareReach : Rat) : Set Place := {x | origin.squareDistance x ≤ squareReach}

/-- The box around a center with half extents. -/
def box (center half : Place) : Set Place := {x | |x.l - center.l| ≤ half.l ∧ |x.s - center.s| ≤ half.s}

/-- The box between two corners. -/
def between (start stop : Place) : Set Place := {x | (start.l ≤ x.l ∧ x.l ≤ stop.l) ∧ start.s ≤ x.s ∧ x.s ≤ stop.s}

/-- What lies ahead between two sides. -/
def ahead (left right : Rat) : Set Place := {x | 0 < x.s ∧ -left ≤ x.l ∧ x.l ≤ right}

end Place

/-! ## Figures in an interpretation -/

/-- Where a point stands. -/
noncomputable def Interpretation.place (I : Interpretation) (p : Point) : Place := ⟨I.amount p.l, I.amount p.s⟩

/-- The places on a line. -/
noncomputable def Line.points (I : Interpretation) : Line → Set Place
  | segment start stop => Place.segment (I.place start) (I.place stop)
  | ray origin dir => Place.ray (I.place origin) (I.place dir)
  | limitedRay origin dir length =>
    Place.ray (I.place origin) (I.place dir) ∩ Place.within (I.place origin) (I.amount length ^ 2)
  | trajectory origin v horizon =>
    Place.ray (I.place origin) (I.place v) ∩
      Place.within (I.place origin) ((I.amount v.l * I.amount horizon) ^ 2 + (I.amount v.s * I.amount horizon) ^ 2)

/-- The places in an area. -/
noncomputable def Area.points (I : Interpretation) : Area → Set Place
  | centered center half => Place.box (I.place center) (I.place half)
  | bounded start stop => Place.between (I.place start) (I.place stop)
  | corridor left right => Place.ahead (I.amount left) (I.amount right)

/-! ## The numbers that a figure is given by -/

def Point.terms (p : Point) : List Term := [p.l, p.s]

def Line.terms : Line → List Term
  | segment start stop => start.terms ++ stop.terms
  | ray origin dir => origin.terms ++ dir.terms
  | limitedRay origin dir length => origin.terms ++ dir.terms ++ [length]
  | trajectory origin v horizon => origin.terms ++ v.terms ++ [horizon]

def Area.terms : Area → List Term
  | centered center half => center.terms ++ half.terms
  | bounded start stop => start.terms ++ stop.terms
  | corridor left right => [left, right]

def Figure.terms : Figure → List Term
  | point p => p.terms
  | line l => l.terms
  | area a => a.terms

/-- All terms of a list are well-sorted numbers. -/
def AllNumbers (Γ : Signature) (ts : List Term) : Prop := ∀ t ∈ ts, t.IsNumber Γ

section

variable {Γ : Signature}

@[simp] theorem allNumbers_nil : AllNumbers Γ [] := List.forall_mem_nil _

@[simp] theorem allNumbers_cons {t : Term} {ts : List Term} :
    AllNumbers Γ (t :: ts) ↔ t.IsNumber Γ ∧ AllNumbers Γ ts := List.forall_mem_cons

@[simp] theorem allNumbers_append {ts us : List Term} :
    AllNumbers Γ (ts ++ us) ↔ AllNumbers Γ ts ∧ AllNumbers Γ us := List.forall_mem_append

theorem allNumbers_point {p : Point} : AllNumbers Γ p.terms ↔ p.l.IsNumber Γ ∧ p.s.IsNumber Γ := by
  simp [Point.terms]

/-! ## Belonging to a figure -/

theorem isFormula_onRay {origin dir p : Point} (ho : AllNumbers Γ origin.terms) (hd : AllNumbers Γ dir.terms)
    (hp : AllNumbers Γ p.terms) : ∀ t ∈ onRay origin dir p, t.IsFormula Γ := by
  rw [allNumbers_point] at ho hd hp
  simp only [onRay, List.forall_mem_cons]
  refine ⟨Term.IsNumber.isFormula_eq ?_ ?_, ?_, ?_, List.forall_mem_nil _⟩ <;> simp [ho, hd, hp]

theorem Line.isFormula_contains {l : Line} {p : Point} (hl : AllNumbers Γ l.terms) (hp : AllNumbers Γ p.terms) :
    (l.contains p).IsFormula Γ := by
  cases l with
  | segment start stop =>
    simp only [terms, allNumbers_append, allNumbers_point] at hl
    rw [allNumbers_point] at hp
    simp only [contains, Term.isFormula_and, List.forall_mem_cons]
    refine ⟨Term.IsNumber.isFormula_eq ?_ ?_, ?_, List.forall_mem_nil _⟩ <;> simp [hl, hp]
  | ray origin dir =>
    simp only [terms, allNumbers_append] at hl
    exact Term.isFormula_and.2 (isFormula_onRay hl.1 hl.2 hp)
  | limitedRay origin dir length =>
    simp only [terms, allNumbers_append, allNumbers_cons] at hl
    have hray := isFormula_onRay hl.1.1 hl.1.2 hp
    rw [allNumbers_point] at hp
    rw [contains, Term.isFormula_and, List.forall_mem_cons]
    refine ⟨?_, hray⟩
    rw [allNumbers_point, allNumbers_point] at hl
    simp [Point.squareDistance, hl, hp]
  | trajectory origin v horizon =>
    simp only [terms, allNumbers_append, allNumbers_cons] at hl
    have hray := isFormula_onRay hl.1.1 hl.1.2 hp
    rw [allNumbers_point] at hp
    rw [contains, Term.isFormula_and, List.forall_mem_cons]
    refine ⟨?_, hray⟩
    rw [allNumbers_point, allNumbers_point] at hl
    simp [Point.squareDistance, hl, hp]

theorem Area.isFormula_contains {a : Area} {p : Point} (ha : AllNumbers Γ a.terms) (hp : AllNumbers Γ p.terms) :
    (a.contains p).IsFormula Γ := by
  rw [allNumbers_point] at hp
  cases a with
  | centered center half | bounded start stop =>
    simp only [terms, allNumbers_append, allNumbers_point] at ha
    simp [contains, ha, hp]
  | corridor left right =>
    simp only [terms, allNumbers_cons] at ha
    simp [contains, ha, hp]

/-- Products are numbers, so an equation between two of them is an equation of numbers. -/
theorem Interpretation.satisfies_eq_mul (I : Interpretation) (a b c d : Term) :
    I.Satisfies (.eq (a * b) (c * d)) ↔ I.amount a * I.amount b = I.amount c * I.amount d := by
  rw [satisfies_eq]
  constructor
  · intro h
    exact congrArg Datum.amount h
  · intro h
    exact congrArg Datum.number h

theorem satisfies_onRay (I : Interpretation) (origin dir p : Point) :
    (∀ t ∈ onRay origin dir p, I.Satisfies t) ↔ I.place p ∈ Place.ray (I.place origin) (I.place dir) := by
  simp [onRay, I.satisfies_eq_mul, Place.ray, Interpretation.place]

/-- A line has the places whose points its formula is true of. -/
theorem Line.satisfies_contains (I : Interpretation) (l : Line) (p : Point) :
    I.Satisfies (l.contains p) ↔ I.place p ∈ l.points I := by
  cases l with
  | segment start stop =>
    have hup : I.Satisfies (.and [p.l.le stop.l, p.l.ge start.l]) ↔
        I.amount start.l ≤ I.amount p.l ∧ I.amount p.l ≤ I.amount stop.l := by simp [and_comm]
    have hdown : I.Satisfies (.and [p.l.ge stop.l, p.l.le start.l]) ↔
        I.amount stop.l ≤ I.amount p.l ∧ I.amount p.l ≤ I.amount start.l := by simp
    rw [contains, I.satisfies_and_pair, I.satisfies_eq_mul, I.satisfies_or_pair, hup, hdown]
    rfl
  | ray origin dir => rw [contains, I.satisfies_and, satisfies_onRay, points]
  | limitedRay origin dir length =>
    rw [contains, I.satisfies_and, List.forall_mem_cons, satisfies_onRay, points, Set.mem_inter_iff, and_comm]
    simp [Place.within, Place.squareDistance, Point.squareDistance, Interpretation.place, pow_two]
  | trajectory origin v horizon =>
    rw [contains, I.satisfies_and, List.forall_mem_cons, satisfies_onRay, points, Set.mem_inter_iff, and_comm]
    simp [Place.within, Place.squareDistance, Point.squareDistance, Interpretation.place, pow_two]

/-- An area has the places whose points its formula is true of. -/
theorem Area.satisfies_contains (I : Interpretation) (a : Area) (p : Point) :
    I.Satisfies (a.contains p) ↔ I.place p ∈ a.points I := by
  cases a with
  | centered center half =>
    have hbox : I.place p ∈ (centered center half).points I ↔
        (-I.amount half.l ≤ I.amount p.l - I.amount center.l ∧ I.amount p.l - I.amount center.l ≤ I.amount half.l) ∧
          -I.amount half.s ≤ I.amount p.s - I.amount center.s ∧ I.amount p.s - I.amount center.s ≤ I.amount half.s := by
      rw [← abs_le, ← abs_le]
      rfl
    simp only [hbox, contains, I.satisfies_and, List.forall_mem_cons, I.satisfies_le, I.satisfies_ge, I.amount_sub,
      I.amount_neg, List.not_mem_nil, IsEmpty.forall_iff, implies_true, and_true]
    tauto
  | bounded start stop => simp [contains, points, Place.between, Interpretation.place, and_assoc]
  | corridor left right => simp [contains, points, Place.ahead, Interpretation.place]

end

end RoadPolicy
