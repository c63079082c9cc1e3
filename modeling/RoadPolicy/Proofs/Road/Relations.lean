/-
The quantified relations between figures mean what they are called. A quantifier over the point of a
fresh name ranges over all places, so membership, inclusion and intersection of figures are true
exactly if they hold of the sets of places, as long as the figures do not mention the fresh name.
-/
import RoadPolicy.Proofs.Road.PointSets

namespace RoadPolicy

/-! ## Quantifiers over a point -/

/-- The stem of the coordinates that the next quantified relation binds. -/
def NameSupply.nextPoint (names : NameSupply) : String := "q" ++ "!" ++ toString names.issued

theorem run_quantifyPoint (q : Quantifier) (body : Point → Term) (names : NameSupply) :
    (quantifyPoint q body).run names =
      (.quantified q (Point.binders names.nextPoint) (body (.named names.nextPoint)), ⟨names.issued + 1⟩) := rfl

/-- A term does not mention the coordinates of the point with a name. -/
def Term.Spares (t : Term) (name : String) : Prop := t.NotFree (name ++ "_l") ∧ t.NotFree (name ++ "_s")

/-- No term of a list mentions the coordinates of the point with a name. -/
def AllSpare (name : String) (ts : List Term) : Prop := ∀ t ∈ ts, t.Spares name

@[simp] theorem allSpare_cons {name : String} {t : Term} {ts : List Term} :
    AllSpare name (t :: ts) ↔ t.Spares name ∧ AllSpare name ts := List.forall_mem_cons

@[simp] theorem allSpare_append {name : String} {ts us : List Term} :
    AllSpare name (ts ++ us) ↔ AllSpare name ts ∧ AllSpare name us := List.forall_mem_append

theorem coordinates_ne (name : String) : name ++ "_l" ≠ name ++ "_s" := by
  intro h
  have := congrArg String.toList h
  simp at this

namespace Interpretation

/-- The interpretation in which the point of a name stands at a place. -/
def withPoint (I : Interpretation) (name : String) (x : Place) : Interpretation :=
  (I.set (name ++ "_l") (.number x.l)).set (name ++ "_s") (.number x.s)

variable (I : Interpretation) (name : String)

@[simp] theorem place_named (x : Place) : (I.withPoint name x).place (.named name) = x := by
  have hl : (I.withPoint name x).value (name ++ "_l") = .number x.l := by
    rw [withPoint, set_value_of_ne _ _ (coordinates_ne name), set_value_self]
  have hs : (I.withPoint name x).value (name ++ "_s") = .number x.s := set_value_self ..
  ext
  · show (((I.withPoint name x).value (name ++ "_l")).asSort .real).amount = x.l
    rw [hl]; rfl
  · show (((I.withPoint name x).value (name ++ "_s")).asSort .real).amount = x.s
    rw [hs]; rfl

theorem satisfies_thereIs_point (body : Term) :
    I.Satisfies (.quantified .some (Point.binders name) body) ↔ ∃ x, (I.withPoint name x).Satisfies body := by
  rw [satisfies_quantified]
  simp only [Quantify, Point.binders, Datum.isOf_real_iff]
  constructor
  · rintro ⟨_, ⟨l, rfl⟩, _, ⟨s, rfl⟩, h⟩
    exact ⟨⟨l, s⟩, h⟩
  · rintro ⟨x, h⟩
    exact ⟨_, ⟨x.l, rfl⟩, _, ⟨x.s, rfl⟩, h⟩

theorem satisfies_forAll_point (body : Term) :
    I.Satisfies (.quantified .all (Point.binders name) body) ↔ ∀ x, (I.withPoint name x).Satisfies body := by
  rw [satisfies_quantified]
  simp only [Quantify, Point.binders, Datum.isOf_real_iff]
  constructor
  · intro h x
    exact h _ ⟨x.l, rfl⟩ _ ⟨x.s, rfl⟩
  · rintro h _ ⟨l, rfl⟩ _ ⟨s, rfl⟩
    exact h ⟨l, s⟩

variable {I name}

theorem amount_withPoint {t : Term} (h : t.Spares name) (x : Place) : (I.withPoint name x).amount t = I.amount t := by
  rw [amount, withPoint, h.2.meaning_set, h.1.meaning_set]
  rfl

theorem place_withPoint {p : Point} (h : AllSpare name p.terms) (x : Place) :
    (I.withPoint name x).place p = I.place p := by
  simp only [Point.terms, allSpare_cons] at h
  rw [place, place, amount_withPoint h.1, amount_withPoint h.2.1]

end Interpretation

theorem Line.points_withPoint {I : Interpretation} {name : String} {l : Line} (h : AllSpare name l.terms) (x : Place) :
    l.points (I.withPoint name x) = l.points I := by
  cases l with
  | segment start stop | ray start stop =>
    simp only [terms, allSpare_append] at h
    simp only [points, Interpretation.place_withPoint h.1, Interpretation.place_withPoint h.2]
  | limitedRay origin dir length =>
    simp only [terms, allSpare_append, allSpare_cons] at h
    simp only [points, Interpretation.place_withPoint h.1.1, Interpretation.place_withPoint h.1.2,
      Interpretation.amount_withPoint h.2.1]
  | trajectory origin v horizon =>
    simp only [terms, allSpare_append, allSpare_cons] at h
    have hv := h.1.2
    simp only [Point.terms, allSpare_cons] at hv
    simp only [points, Interpretation.place_withPoint h.1.1, Interpretation.place_withPoint h.1.2,
      Interpretation.amount_withPoint h.2.1, Interpretation.amount_withPoint hv.1,
      Interpretation.amount_withPoint hv.2.1]

theorem Area.points_withPoint {I : Interpretation} {name : String} {a : Area} (h : AllSpare name a.terms) (x : Place) :
    a.points (I.withPoint name x) = a.points I := by
  cases a with
  | centered center half | bounded start stop =>
    simp only [terms, allSpare_append] at h
    simp only [points, Interpretation.place_withPoint h.1, Interpretation.place_withPoint h.2]
  | corridor left right =>
    simp only [terms, allSpare_cons] at h
    simp only [points, Interpretation.amount_withPoint h.1, Interpretation.amount_withPoint h.2.1]

theorem allNumbers_bind {Γ : Signature} {name : String} {ts : List Term} (hn : AllNumbers Γ ts)
    (hs : AllSpare name ts) : AllNumbers (Γ.bind (Point.binders name)) ts := by
  intro t ht
  refine ⟨(hn t ht).1.bind ?_, (hn t ht).2⟩
  simp only [Point.binders, List.forall_mem_cons]
  exact ⟨(hs t ht).1, (hs t ht).2, List.forall_mem_nil _⟩

theorem allNumbers_named (Γ : Signature) (name : String) :
    AllNumbers (Γ.bind (Point.binders name)) (Point.named name).terms := by
  have hne := coordinates_ne name
  simp [Point.terms, Point.named, Point.binders, Term.IsNumber, Term.realConst, Term.WellSorted, Signature.bind,
    Term.sort, hne]

/-! ## Truth of the relations -/

section

variable {I : Interpretation} {names : NameSupply}

theorem Line.satisfies_named {name : String} {l : Line} (h : AllSpare name l.terms) (x : Place) :
    (I.withPoint name x).Satisfies (l.contains (.named name)) ↔ x ∈ l.points I := by
  rw [satisfies_contains, I.place_named, points_withPoint h]

theorem Area.satisfies_named {name : String} {a : Area} (h : AllSpare name a.terms) (x : Place) :
    (I.withPoint name x).Satisfies (a.contains (.named name)) ↔ x ∈ a.points I := by
  rw [satisfies_contains, I.place_named, points_withPoint h]

/-- Inclusion is true if it holds of the sets of places that the formulas are true of. -/
theorem satisfies_includedIn {inner outer : Point → Term} {S T : Set Place}
    (hS : ∀ x, (I.withPoint names.nextPoint x).Satisfies (inner (.named names.nextPoint)) ↔ x ∈ S)
    (hT : ∀ x, (I.withPoint names.nextPoint x).Satisfies (outer (.named names.nextPoint)) ↔ x ∈ T) :
    I.Satisfies ((includedIn inner outer).run names).1 ↔ S ⊆ T := by
  rw [includedIn, run_quantifyPoint, I.satisfies_forAll_point]
  simp only [Interpretation.satisfies_implies, hS, hT]
  rfl

/-- Intersection is true if the sets of places that the formulas are true of meet. -/
theorem satisfies_meets {a b : Point → Term} {S T : Set Place}
    (hS : ∀ x, (I.withPoint names.nextPoint x).Satisfies (a (.named names.nextPoint)) ↔ x ∈ S)
    (hT : ∀ x, (I.withPoint names.nextPoint x).Satisfies (b (.named names.nextPoint)) ↔ x ∈ T) :
    I.Satisfies ((meets a b).run names).1 ↔ (S ∩ T).Nonempty := by
  rw [meets, run_quantifyPoint, I.satisfies_thereIs_point]
  simp only [Interpretation.satisfies_and_pair, hS, hT]
  rfl

end

/-! ## Formulas that describe a set -/

/-- A formula about the point of a name describes a set of places, in every interpretation. -/
structure Describes (Γ : Signature) (name : String) (formula : Point → Term) (S : Interpretation → Set Place) :
    Prop where
  isFormula : (formula (.named name)).IsFormula (Γ.bind (Point.binders name))
  satisfies : ∀ I x, (I.withPoint name x).Satisfies (formula (.named name)) ↔ x ∈ S I

section

variable {Γ : Signature} {names : NameSupply}

theorem Line.describes {name : String} {l : Line} (hn : AllNumbers Γ l.terms) (hs : AllSpare name l.terms) :
    Describes Γ name l.contains l.points :=
  ⟨isFormula_contains (allNumbers_bind hn hs) (allNumbers_named Γ name), fun _ x => satisfies_named hs x⟩

theorem Area.describes {name : String} {a : Area} (hn : AllNumbers Γ a.terms) (hs : AllSpare name a.terms) :
    Describes Γ name a.contains a.points :=
  ⟨isFormula_contains (allNumbers_bind hn hs) (allNumbers_named Γ name), fun _ x => satisfies_named hs x⟩

/-- The formula of a relation, and when it is true. -/
def Relates (Γ : Signature) (t : Term) (p : Interpretation → Prop) : Prop :=
  t.IsFormula Γ ∧ ∀ I : Interpretation, I.Satisfies t ↔ p I

/-- Membership. -/
theorem pointIn_relates {p : Point} {formula : Point → Term} {S : Interpretation → Set Place}
    (hn : AllNumbers Γ p.terms) (hs : AllSpare names.nextPoint p.terms) (hS : Describes Γ names.nextPoint formula S) :
    Relates Γ ((pointIn p formula).run names).1 fun I => I.place p ∈ S I := by
  have hx := allNumbers_point.1 (allNumbers_named Γ names.nextPoint)
  have hp := allNumbers_point.1 (allNumbers_bind hn hs)
  rw [pointIn, run_quantifyPoint]
  constructor
  · rw [Term.isFormula_quantified, Term.isFormula_and]
    simp only [List.forall_mem_cons]
    exact ⟨hx.1.isFormula_eq hp.1, hx.2.isFormula_eq hp.2, hS.isFormula, List.forall_mem_nil _⟩
  · intro I
    -- the bound point stands where `p` does, so only one place is asked about
    have hbody : ∀ x, (I.withPoint names.nextPoint x).Satisfies (.and [.eq (Point.named names.nextPoint).l p.l,
        .eq (Point.named names.nextPoint).s p.s, formula (.named names.nextPoint)]) ↔ x = I.place p ∧ x ∈ S I := by
      intro x
      have hxl : (I.withPoint names.nextPoint x).amount (Point.named names.nextPoint).l = x.l :=
        congrArg Place.l (I.place_named names.nextPoint x)
      have hxs : (I.withPoint names.nextPoint x).amount (Point.named names.nextPoint).s = x.s :=
        congrArg Place.s (I.place_named names.nextPoint x)
      rw [Point.terms, allSpare_cons, allSpare_cons] at hs
      rw [Interpretation.satisfies_and]
      simp only [List.forall_mem_cons, List.not_mem_nil, IsEmpty.forall_iff, implies_true, and_true]
      rw [Interpretation.satisfies_eq_number _ hx.1 hp.1, Interpretation.satisfies_eq_number _ hx.2 hp.2,
        hS.satisfies, hxl, hxs, Interpretation.amount_withPoint hs.1, Interpretation.amount_withPoint hs.2.1,
        Place.ext_iff, and_assoc]
      rfl
    rw [I.satisfies_thereIs_point]
    simp only [hbody]
    constructor
    · rintro ⟨x, rfl, hx⟩; exact hx
    · intro h; exact ⟨_, rfl, h⟩

/-- Inclusion. -/
theorem includedIn_relates {inner outer : Point → Term} {S T : Interpretation → Set Place}
    (hS : Describes Γ names.nextPoint inner S) (hT : Describes Γ names.nextPoint outer T) :
    Relates Γ ((includedIn inner outer).run names).1 fun I => S I ⊆ T I := by
  refine ⟨?_, fun I => satisfies_includedIn (hS.satisfies I) (hT.satisfies I)⟩
  rw [includedIn, run_quantifyPoint, Term.isFormula_quantified, Term.isFormula_implies]
  exact ⟨hS.isFormula, hT.isFormula⟩

/-- Intersection. -/
theorem meets_relates {a b : Point → Term} {S T : Interpretation → Set Place}
    (hS : Describes Γ names.nextPoint a S) (hT : Describes Γ names.nextPoint b T) :
    Relates Γ ((meets a b).run names).1 fun I => (S I ∩ T I).Nonempty := by
  refine ⟨?_, fun I => satisfies_meets (hS.satisfies I) (hT.satisfies I)⟩
  rw [meets, run_quantifyPoint, Term.isFormula_quantified, Term.isFormula_and]
  simp only [List.forall_mem_cons]
  exact ⟨hS.isFormula, hT.isFormula, List.forall_mem_nil _⟩

end

end RoadPolicy
