/-
The formulas of figures, encounters and signals: their sorts fit as soon as the coordinates, sizes
and signals that they are made of are numbers whose sorts fit. Nothing is asked of the names in
these, so a quantifier over a point may bind a name that a coordinate mentions.
-/
import RoadPolicy.Policy.Apply
import RoadPolicy.Proofs.Formula.FittingSorts
import RoadPolicy.Proofs.Road.SortedValues

namespace RoadPolicy

variable {Γ : Signature} {a b : Term} {p : Point} {names : NameSupply}

namespace Term

@[simp] theorem fitsNumber_int (n : Int) : (int n).FitsNumber Γ := ⟨trivial, TermSort.noConfusion⟩

theorem fitsNumber_arith {op : Arith} : (arith op a b).FitsNumber Γ ↔ a.FitsNumber Γ ∧ b.FitsNumber Γ :=
  ⟨fun h => h.1, fun h => ⟨h, arith_sort_ne_bool op a b⟩⟩

@[simp] theorem fitsNumber_add : (a + b).FitsNumber Γ ↔ a.FitsNumber Γ ∧ b.FitsNumber Γ := fitsNumber_arith

@[simp] theorem fitsNumber_sub : (a - b).FitsNumber Γ ↔ a.FitsNumber Γ ∧ b.FitsNumber Γ := fitsNumber_arith

@[simp] theorem fitsNumber_mul : (a * b).FitsNumber Γ ↔ a.FitsNumber Γ ∧ b.FitsNumber Γ := fitsNumber_arith

@[simp] theorem fitsNumber_div : (a / b).FitsNumber Γ ↔ a.FitsNumber Γ ∧ b.FitsNumber Γ :=
  ⟨fun h => h.1, fun h => ⟨h, TermSort.noConfusion⟩⟩

@[simp] theorem fitsNumber_neg : (-a).FitsNumber Γ ↔ a.FitsNumber Γ := ⟨fun h => h.1, fun h => ⟨h, h.2⟩⟩

@[simp] theorem fitsFormula_compare {op : Comparison} :
    (compare op a b).FitsFormula Γ ↔ a.FitsNumber Γ ∧ b.FitsNumber Γ := ⟨fun h => h.1, fun h => ⟨h, rfl⟩⟩

@[simp] theorem fitsFormula_junction {j : Junction} {ts : List Term} :
    (junction j ts).FitsFormula Γ ↔ ∀ t ∈ ts, t.FitsFormula Γ :=
  ⟨fun h => fitsAll_iff.1 h.1, fun h => ⟨fitsAll_iff.2 h, rfl⟩⟩

theorem FitsNumber.eq (ha : a.FitsNumber Γ) (hb : b.FitsNumber Γ) : (Term.eq a b).FitsFormula Γ :=
  ⟨⟨ha.1, hb.1, iff_of_false ha.2 hb.2⟩, rfl⟩

theorem FitsNumber.abs (h : a.FitsNumber Γ) : a.abs.FitsNumber Γ := by
  refine ⟨⟨⟨⟨h, fitsNumber_int 0⟩, rfl⟩, h.1, h, iff_of_false h.2 h.2⟩, ?_⟩
  rw [Term.abs, Ne, ite_sort_eq_bool_iff]
  exact h.2

end Term

/-- All terms of a list are numbers whose sorts fit. -/
def AllFit (Γ : Signature) (ts : List Term) : Prop := ∀ t ∈ ts, t.FitsNumber Γ

@[simp] theorem allFit_nil : AllFit Γ [] := List.forall_mem_nil _

@[simp] theorem allFit_cons {t : Term} {ts : List Term} : AllFit Γ (t :: ts) ↔ t.FitsNumber Γ ∧ AllFit Γ ts :=
  List.forall_mem_cons

@[simp] theorem allFit_append {ts us : List Term} : AllFit Γ (ts ++ us) ↔ AllFit Γ ts ∧ AllFit Γ us :=
  List.forall_mem_append

theorem AllFit.relax {ts : List Term} (h : AllFit Γ ts) (binders : List Binder) : AllFit (Γ.relax binders) ts :=
  fun t ht => (h t ht).relax binders

/-! ## Figures -/

theorem onRay_fits {origin dir : Point} (ho : AllFit Γ origin.terms) (hd : AllFit Γ dir.terms)
    (hp : AllFit Γ p.terms) : ∀ t ∈ onRay origin dir p, t.FitsFormula Γ := by
  simp only [Point.terms, allFit_cons, allFit_nil, and_true] at ho hd hp
  simp only [onRay, List.forall_mem_cons]
  refine ⟨Term.FitsNumber.eq ?_ ?_, ?_, ?_, List.forall_mem_nil _⟩ <;> simp [Term.ge, ho, hd, hp]

theorem Line.contains_fits {l : Line} (hl : AllFit Γ l.terms) (hp : AllFit Γ p.terms) :
    (l.contains p).FitsFormula Γ := by
  cases l with
  | segment start stop =>
    simp only [terms, Point.terms, allFit_append, allFit_cons, allFit_nil, and_true] at hl hp
    simp only [contains, Term.and, Term.fitsFormula_junction, List.forall_mem_cons]
    refine ⟨Term.FitsNumber.eq ?_ ?_, ?_, List.forall_mem_nil _⟩ <;> simp [Term.or, Term.le, Term.ge, hl, hp]
  | ray origin dir =>
    rw [terms, allFit_append] at hl
    exact Term.fitsFormula_junction.2 (onRay_fits hl.1 hl.2 hp)
  | limitedRay origin dir length =>
    rw [terms, allFit_append, allFit_append] at hl
    refine Term.fitsFormula_junction.2 (List.forall_mem_cons.2 ⟨?_, onRay_fits hl.1.1 hl.1.2 hp⟩)
    simp only [Point.terms, allFit_cons, allFit_nil, and_true] at hl hp
    simp [Point.squareDistance, Term.square, Term.le, hl, hp]
  | trajectory origin v horizon =>
    rw [terms, allFit_append, allFit_append] at hl
    refine Term.fitsFormula_junction.2 (List.forall_mem_cons.2 ⟨?_, onRay_fits hl.1.1 hl.1.2 hp⟩)
    simp only [Point.terms, allFit_cons, allFit_nil, and_true] at hl hp
    simp [Point.squareDistance, Term.square, Term.le, hl, hp]

theorem Area.contains_fits {a : Area} (ha : AllFit Γ a.terms) (hp : AllFit Γ p.terms) :
    (a.contains p).FitsFormula Γ := by
  cases a with
  | centered center half | bounded center half | corridor left right =>
    simp only [terms, Point.terms, allFit_append, allFit_cons, allFit_nil, and_true] at ha hp
    simp [contains, Term.and, Term.le, Term.ge, Term.gt, ha, hp]

/-! ## Quantified relations -/

theorem named_fits (Γ : Signature) (name : String) : AllFit (Γ.relax (Point.binders name)) (Point.named name).terms := by
  simp [Point.terms, Point.named, Point.binders, Term.realConst, Term.FitsNumber, Term.Fits, Signature.relax, Term.sort]

/-- The sorts in the formula of a set fit, for every point that a quantifier binds. -/
def SetFits (Γ : Signature) (set : Point → Term) : Prop :=
  ∀ name, (set (.named name)).FitsFormula (Γ.relax (Point.binders name))

theorem Line.setFits {l : Line} (h : AllFit Γ l.terms) : SetFits Γ l.contains :=
  fun name => contains_fits (h.relax _) (named_fits Γ name)

theorem Area.setFits {a : Area} (h : AllFit Γ a.terms) : SetFits Γ a.contains :=
  fun name => contains_fits (h.relax _) (named_fits Γ name)

theorem pointIn_fits {set : Point → Term} (hp : AllFit Γ p.terms) (hset : SetFits Γ set) :
    ((pointIn p set).run names).1.FitsFormula Γ := by
  have hx := named_fits Γ names.nextPoint
  replace hp := hp.relax (Point.binders names.nextPoint)
  simp only [Point.terms, allFit_cons, allFit_nil, and_true] at hx hp
  rw [pointIn, run_quantifyPoint]
  refine ⟨Term.fitsFormula_junction.2 ?_, rfl⟩
  simp only [List.forall_mem_cons]
  exact ⟨hx.1.eq hp.1, hx.2.eq hp.2, hset _, List.forall_mem_nil _⟩

theorem includedIn_fits {inner outer : Point → Term} (hi : SetFits Γ inner) (ho : SetFits Γ outer) :
    ((includedIn inner outer).run names).1.FitsFormula Γ := by
  rw [includedIn, run_quantifyPoint]
  exact ⟨⟨⟨hi _, ho _⟩, rfl⟩, rfl⟩

theorem meets_fits {s t : Point → Term} (hs : SetFits Γ s) (ht : SetFits Γ t) :
    ((meets s t).run names).1.FitsFormula Γ := by
  rw [meets, run_quantifyPoint]
  refine ⟨Term.fitsFormula_junction.2 ?_, rfl⟩
  simp only [List.forall_mem_cons]
  exact ⟨hs _, ht _, List.forall_mem_nil _⟩

theorem Figure.containment_fits {f g : Figure} {result : Naming Term} (h : f.containment g = some result)
    (hf : AllFit Γ f.terms) (hg : AllFit Γ g.terms) : (result.run names).1.FitsFormula Γ := by
  cases f with
  | point p =>
    cases g with
    | point q => cases h
    | line l => cases h; exact pointIn_fits hf (Line.setFits hg)
    | area a => cases h; exact pointIn_fits hf (Area.setFits hg)
  | line l =>
    cases g with
    | point q | line m => cases h
    | area a => cases h; exact includedIn_fits (Line.setFits hf) (Area.setFits hg)
  | area a =>
    cases g with
    | point q | line m => cases h
    | area b => cases h; exact includedIn_fits (Area.setFits hf) (Area.setFits hg)

theorem Figure.crossing_fits {f g : Figure} {result : Naming Term} (h : f.crossing g = some result)
    (hf : AllFit Γ f.terms) (hg : AllFit Γ g.terms) : (result.run names).1.FitsFormula Γ := by
  cases f with
  | point p => cases g <;> cases h
  | line l =>
    cases g with
    | point q => cases h
    | line m => cases h; exact meets_fits (Line.setFits hf) (Line.setFits hg)
    | area a => cases h; exact meets_fits (Line.setFits hf) (Area.setFits hg)
  | area a =>
    cases g with
    | point q => cases h
    | line l => cases h; exact meets_fits (Line.setFits hg) (Area.setFits hf)
    | area b => cases h; exact meets_fits (Area.setFits hf) (Area.setFits hg)

/-! ## Encounters and signals -/

theorem Encounter.timing_fits (k : Encounter) {ego obstacle : TrafficObject} {v : Point}
    (he : AllFit Γ (ego.pos.terms ++ ego.size.terms)) (ho : AllFit Γ (obstacle.pos.terms ++ obstacle.size.terms))
    (hv : AllFit Γ v.terms) : (k.timing (.between ego obstacle v)).FitsFormula Γ := by
  simp only [Point.terms, allFit_append, allFit_cons, allFit_nil, and_true] at he ho hv
  cases k with
  | cross | above | below =>
    simp [timing, Band.between, passesAt, Term.and, Term.or, Term.le, Term.ge, Term.lt, Term.gt, he, ho, hv]

theorem Color.formula_fits (c : Color) (h : a.FitsNumber Γ) : (c.formula a).FitsFormula Γ := by
  cases c with
  | yellow => exact h.eq (Term.fitsNumber_int 1)
  | red | green | unknown => simp [formula, Term.and, Term.lt, Term.gt, Term.le, h]

theorem Direction.formula_fits (d : Direction) (h : a.FitsNumber Γ) : (d.formula a).FitsFormula Γ := by
  cases d with
  | straight => exact h.eq (Term.fitsNumber_int 0)
  | left | right => simp [formula, Term.lt, Term.gt, h]

end RoadPolicy
