/-
The quantified relations between figures are inclusion and intersection of sets. A figure has the
places whose literal point satisfies its formula; containment says that one figure has no place that
the other lacks, crossing that they have one in common. The bound point is fresh, so nothing in the
figures is captured: the formula mentions what the figures mention, and it says the same whatever
the supply it took its name from.
-/
import RoadPolicy.Proofs.Formula.FreeConstants
import RoadPolicy.Proofs.Policy.OperatorMeaning
import RoadPolicy.Proofs.Road.StraightLines

namespace RoadPolicy

/-! ## What the formulas mention -/

section

variable {c : String × TermSort} {names : NameSupply}

theorem Line.mentions_contains {l : Line} {p : Point} :
    (l.contains p).Mentions c ↔ Mentioned (l.terms ++ p.terms) c := by
  cases l with
  | segment start stop =>
    simp only [contains, terms, Point.terms, Term.mentions_and, Term.mentions_or, Term.mentions_eq, Term.mentions_le,
      Term.mentions_ge, Term.mentions_sub, Term.mentions_mul, mentioned_cons, mentioned_append, mentioned_nil]
    tauto
  | ray origin dir | limitedRay origin dir length | trajectory origin dir horizon =>
    simp only [contains, onRay, terms, Point.terms, Point.squareDistance, Term.mentions_and, Term.mentions_eq,
      Term.mentions_le, Term.mentions_ge, Term.mentions_add, Term.mentions_sub, Term.mentions_mul,
      Term.mentions_square, Term.mentions_int, mentioned_cons, mentioned_append, mentioned_nil]
    tauto

theorem Area.mentions_contains {a : Area} {p : Point} :
    (a.contains p).Mentions c ↔ Mentioned (a.terms ++ p.terms) c := by
  cases a with
  | centered center half | bounded center half | corridor left right =>
    simp only [contains, terms, Point.terms, Term.mentions_and, Term.mentions_le, Term.mentions_ge, Term.mentions_gt,
      Term.mentions_sub, Term.mentions_neg, Term.mentions_int, mentioned_cons, mentioned_append, mentioned_nil]
    tauto

/-- A quantifier over a fresh point takes away this point and nothing else. -/
theorem mentions_quantifyPoint {q : Quantifier} {body : Point → Term} {ts : List Term}
    (hspare : AllSpare names.nextPoint ts)
    (hbody : (body (.named names.nextPoint)).Mentions c ↔
      Mentioned (ts ++ (Point.named names.nextPoint).terms) c) :
    ((quantifyPoint q body).run names).1.Mentions c ↔ Mentioned ts c := by
  rw [run_quantifyPoint, Term.mentions_quantified, hbody, mentioned_append]
  constructor
  · rintro ⟨hts | hpoint, hbound⟩
    · exact hts
    · simp only [Point.terms, Point.named, mentioned_cons, mentioned_nil, Term.mentions_realConst, or_false] at hpoint
      exfalso
      rcases hpoint with rfl | rfl <;> simp [Point.binders] at hbound
  · rintro ⟨t, ht, hc⟩
    refine ⟨.inl ⟨t, ht, hc⟩, ?_⟩
    obtain ⟨hl, hs⟩ := hspare t ht
    intro hbound
    have hname : c.1 = names.nextPoint ++ "_l" ∨ c.1 = names.nextPoint ++ "_s" := List.mem_pair.1 hbound
    rcases hname with hname | hname
    · exact hl c.2 (hname ▸ hc)
    · exact hs c.2 (hname ▸ hc)

theorem mentions_pointIn {p : Point} {set : Point → Term} {ts : List Term}
    (hset : ∀ x : Point, (set x).Mentions c ↔ Mentioned (ts ++ x.terms) c)
    (hspare : AllSpare names.nextPoint (p.terms ++ ts)) :
    ((pointIn p set).run names).1.Mentions c ↔ Mentioned (p.terms ++ ts) c := by
  refine mentions_quantifyPoint hspare ?_
  simp only [Term.mentions_and, Term.mentions_eq, hset, Point.terms, mentioned_cons, mentioned_append, mentioned_nil]
  tauto

theorem mentions_includedIn {inner outer : Point → Term} {ts us : List Term}
    (hinner : ∀ x : Point, (inner x).Mentions c ↔ Mentioned (ts ++ x.terms) c)
    (houter : ∀ x : Point, (outer x).Mentions c ↔ Mentioned (us ++ x.terms) c)
    (hspare : AllSpare names.nextPoint (ts ++ us)) :
    ((includedIn inner outer).run names).1.Mentions c ↔ Mentioned (ts ++ us) c := by
  refine mentions_quantifyPoint hspare ?_
  simp only [Term.mentions_implies, hinner, houter, mentioned_append]
  tauto

theorem mentions_meets {a b : Point → Term} {ts us : List Term}
    (ha : ∀ x : Point, (a x).Mentions c ↔ Mentioned (ts ++ x.terms) c)
    (hb : ∀ x : Point, (b x).Mentions c ↔ Mentioned (us ++ x.terms) c)
    (hspare : AllSpare names.nextPoint (ts ++ us)) :
    ((meets a b).run names).1.Mentions c ↔ Mentioned (ts ++ us) c := by
  refine mentions_quantifyPoint hspare ?_
  simp only [Term.mentions_and, ha, hb, mentioned_cons, mentioned_append, mentioned_nil]
  tauto

end

namespace Figure

variable {f g h : Figure} {m : Naming Term} {names : NameSupply}

theorem spares_realConst {name point : String} :
    (Term.realConst name).Spares point ↔ name ≠ point ++ "_l" ∧ name ≠ point ++ "_s" := by
  simp [Term.Spares, Term.NotFree, Term.realConst, Term.freeOccurrences, eq_comm]

theorem spares_int {n : Int} {point : String} : (Term.int n).Spares point := by
  simp [Term.Spares, Term.NotFree, Term.freeOccurrences]

/-- The next bound point of the supply occurs free in neither figure. -/
def FreshFor (names : NameSupply) (f g : Figure) : Prop := AllSpare names.nextPoint (f.terms ++ g.terms)

theorem FreshFor.symm (hfresh : FreshFor names f g) : FreshFor names g f := by
  unfold FreshFor at *
  rw [allSpare_append] at *
  exact hfresh.symm

theorem mentions_containment (hm : f.containment g = some m) (hfresh : FreshFor names f g) (c : String × TermSort) :
    (m.run names).1.Mentions c ↔ Mentioned (f.terms ++ g.terms) c := by
  cases f with
  | point p =>
    cases g with
    | point q => cases hm
    | line l => cases hm; exact mentions_pointIn (fun x => Line.mentions_contains) hfresh
    | area a => cases hm; exact mentions_pointIn (fun x => Area.mentions_contains) hfresh
  | line l =>
    cases g with
    | point | line => cases hm
    | area a =>
      cases hm
      exact mentions_includedIn (fun x => Line.mentions_contains) (fun x => Area.mentions_contains) hfresh
  | area a =>
    cases g with
    | point | line => cases hm
    | area b =>
      cases hm
      exact mentions_includedIn (fun x => Area.mentions_contains) (fun x => Area.mentions_contains) hfresh

theorem mentions_crossing (hm : f.crossing g = some m) (hfresh : FreshFor names f g) (c : String × TermSort) :
    (m.run names).1.Mentions c ↔ Mentioned (f.terms ++ g.terms) c := by
  cases f with
  | point p => cases hm
  | line l =>
    cases g with
    | point q => cases hm
    | line k => cases hm; exact mentions_meets (fun x => Line.mentions_contains) (fun x => Line.mentions_contains) hfresh
    | area a => cases hm; exact mentions_meets (fun x => Line.mentions_contains) (fun x => Area.mentions_contains) hfresh
  | area a =>
    cases g with
    | point q => cases hm
    | line l =>
      -- the line comes first in this formula
      cases hm
      rw [mentioned_append, or_comm, ← mentioned_append]
      exact mentions_meets (fun x => Line.mentions_contains) (fun x => Area.mentions_contains) hfresh.symm
    | area b => cases hm; exact mentions_meets (fun x => Area.mentions_contains) (fun x => Area.mentions_contains) hfresh

/-! ## Figures as sets -/

/-- A point has the place where it stands; a line or an area has the places whose literal point
satisfies its formula. -/
def Has (I : Interpretation) : Figure → Place → Prop
  | point p, x => x = I.place p
  | line l, x => I.Satisfies (l.contains x.point)
  | area a, x => I.Satisfies (a.contains x.point)

/-- Every place of one figure is a place of the other. -/
def Within (I : Interpretation) (f g : Figure) : Prop := ∀ x, f.Has I x → g.Has I x

/-- Some place belongs to both figures. -/
def Meets (I : Interpretation) (f g : Figure) : Prop := ∃ x, f.Has I x ∧ g.Has I x

theorem Within.trans {I : Interpretation} (hfg : f.Within I g) (hgh : g.Within I h) : f.Within I h :=
  fun x hx => hgh x (hfg x hx)

theorem Meets.symm {I : Interpretation} (hfg : f.Meets I g) : g.Meets I f := by
  obtain ⟨x, hf, hg⟩ := hfg
  exact ⟨x, hg, hf⟩

theorem has_line {I : Interpretation} {l : Line} {x : Place} : (line l).Has I x ↔ x ∈ l.points I :=
  Line.satisfies_contains I l x.point

theorem has_area {I : Interpretation} {a : Area} {x : Place} : (area a).Has I x ↔ x ∈ a.points I :=
  Area.satisfies_contains I a x.point

theorem inclusion?_iff {I : Interpretation} {P : Prop} (hP : f.inclusion? I g = some P) : P ↔ f.Within I g := by
  unfold Within
  cases f with
  | point p =>
    cases g with
    | point q => cases hP
    | line l => cases hP; exact has_line.symm.trans forall_eq.symm
    | area a => cases hP; exact has_area.symm.trans forall_eq.symm
  | line l =>
    cases g with
    | point | line => cases hP
    | area a => cases hP; simp only [has_line, has_area]; rfl
  | area a =>
    cases g with
    | point | line => cases hP
    | area b => cases hP; simp only [has_area]; rfl

theorem intersection?_iff {I : Interpretation} {P : Prop} (hP : f.intersection? I g = some P) : P ↔ f.Meets I g := by
  unfold Meets
  cases f with
  | point p => cases hP
  | line l =>
    cases g with
    | point q => cases hP
    | line k => cases hP; simp only [has_line]; rfl
    | area a => cases hP; simp only [has_line, has_area]; rfl
  | area a =>
    cases g with
    | point q => cases hP
    | line l => cases hP; simp only [has_line, has_area]; rfl
    | area b => cases hP; simp only [has_area]; rfl

/-! ## What the formulas say -/

/-- The formula says that two figures stand in a relation: it is true exactly if they do, and its
free constants are those of the figures. -/
structure Expresses (f g : Figure) (R : Interpretation → Prop) (t : Term) : Prop where
  satisfies : ∀ I, I.Satisfies t ↔ R I
  mentions : ∀ c, t.Mentions c ↔ ∃ u ∈ f.terms ++ g.terms, u.Mentions c
  names : ∀ name, t.freeConsts.contains name = true ↔ ∃ u ∈ f.terms ++ g.terms, u.freeConsts.contains name = true

theorem Expresses.of_mentions {R : Interpretation → Prop} {t : Term} (hsat : ∀ I, I.Satisfies t ↔ R I)
    (hmentions : ∀ c, t.Mentions c ↔ Mentioned (f.terms ++ g.terms) c) : Expresses f g R t := by
  refine ⟨hsat, hmentions, fun name => ?_⟩
  simp only [Term.contains_freeConsts_iff, hmentions]
  constructor
  · rintro ⟨s, u, hu, hs⟩
    exact ⟨u, hu, s, hs⟩
  · rintro ⟨u, hu, s, hs⟩
    exact ⟨s, u, hu, hs⟩

/-- Coordinates, sizes and lengths are well-sorted numbers; their constants may have any sort. -/
def Numeric (f : Figure) : Prop := AllNumbers .free f.terms

theorem containment_expresses (hm : f.containment g = some m) (hf : f.Numeric) (hg : g.Numeric)
    (hfresh : FreshFor names f g) : Expresses f g (f.Within · g) (m.run names).1 := by
  obtain ⟨hf', hg'⟩ := allSpare_append.1 hfresh
  obtain ⟨P, hrelates, hP⟩ := Operator.containment_relates hm hf hg hf' hg'
  exact .of_mentions (fun I => (hrelates.2 I).trans (inclusion?_iff (hP I))) (mentions_containment hm hfresh)

theorem crossing_expresses (hm : f.crossing g = some m) (hf : f.Numeric) (hg : g.Numeric)
    (hfresh : FreshFor names f g) : Expresses f g (f.Meets · g) (m.run names).1 := by
  obtain ⟨hf', hg'⟩ := allSpare_append.1 hfresh
  obtain ⟨P, hrelates, hP⟩ := Operator.crossing_relates hm hf hg hf' hg'
  exact .of_mentions (fun I => (hrelates.2 I).trans (intersection?_iff (hP I))) (mentions_crossing hm hfresh)

/-! ## Kinds of figures -/

theorem containment_isSome_iff : (f.containment g).isSome ↔
    (f.kind, g.kind) ∈ [(.point, .line), (.point, .area), (.line, .area), (.area, .area)] := by
  cases f <;> cases g <;> simp [containment, kind]

theorem crossing_isSome_iff : (f.crossing g).isSome ↔ f.kind ≠ .point ∧ g.kind ≠ .point := by
  cases f <;> cases g <;> simp [crossing, kind]

theorem exists_containment_trans {m' : Naming Term} (hm : f.containment g = some m) (hm' : g.containment h = some m') :
    ∃ m'', f.containment h = some m'' := by
  have hfg := containment_isSome_iff.1 (Option.isSome_of_eq_some hm)
  have hgh := containment_isSome_iff.1 (Option.isSome_of_eq_some hm')
  refine Option.isSome_iff_exists.1 (containment_isSome_iff.2 ?_)
  -- whatever lies in the middle, the outer figure is an area
  generalize f.kind = kf, g.kind = kg, h.kind = kh at hfg hgh
  cases kg <;> simp_all

theorem exists_crossing_symm (hm : f.crossing g = some m) : ∃ m', g.crossing f = some m' := by
  have hfg := crossing_isSome_iff.1 (Option.isSome_of_eq_some hm)
  exact Option.isSome_iff_exists.1 (crossing_isSome_iff.2 hfg.symm)

/-! ## The relations -/

/-- A point lies in a figure exactly if the figure has the place of the point. -/
theorem point_within_iff {I : Interpretation} {p : Point} : (point p).Within I g ↔ g.Has I (I.place p) := forall_eq

/-- Containment is inclusion and crossing is intersection, for figures of numbers whose constants are
not captured. So the quantifier of a membership can be dropped, crossing is symmetric and containment
is transitive, from whatever supplies the bound points are taken. -/
theorem relations_mean_sets (hf : f.Numeric) (hg : g.Numeric) (hfresh : FreshFor names f g) :
    (∀ m, f.containment g = some m → Expresses f g (f.Within · g) (m.run names).1) ∧
    (∀ m, f.crossing g = some m → Expresses f g (f.Meets · g) (m.run names).1) ∧
    -- the figures that can stand in the relations
    ((f.containment g).isSome ↔
      (f.kind, g.kind) ∈ [(.point, .line), (.point, .area), (.line, .area), (.area, .area)]) ∧
    ((f.crossing g).isSome ↔ f.kind ≠ .point ∧ g.kind ≠ .point) ∧
    -- membership
    (∀ p l, f = point p → g = line l →
      ∀ I : Interpretation, I.Satisfies ((pointIn p l.contains).run names).1 ↔ I.Satisfies (l.contains p)) ∧
    (∀ p a, f = point p → g = area a →
      ∀ I : Interpretation, I.Satisfies ((pointIn p a.contains).run names).1 ↔ I.Satisfies (a.contains p)) ∧
    -- symmetry
    (∀ m, f.crossing g = some m → ∃ m', g.crossing f = some m' ∧ ∀ names', FreshFor names' g f →
      ∀ I : Interpretation, I.Satisfies (m.run names).1 ↔ I.Satisfies (m'.run names').1) ∧
    -- transitivity
    ∀ (h : Figure) (m m' : Naming Term), h.Numeric → f.containment g = some m → g.containment h = some m' →
      ∃ m'', f.containment h = some m'' ∧ ∀ names' names'', FreshFor names' g h → FreshFor names'' f h →
        ∀ I : Interpretation, I.Satisfies (m.run names).1 → I.Satisfies (m'.run names').1 →
          I.Satisfies (m''.run names'').1 := by
  refine ⟨fun m hm => containment_expresses hm hf hg hfresh, fun m hm => crossing_expresses hm hf hg hfresh,
    containment_isSome_iff, crossing_isSome_iff, ?_, ?_, ?_, ?_⟩
  · rintro p l rfl rfl I
    have hexpr := containment_expresses (m := pointIn p l.contains) rfl hf hg hfresh
    rw [hexpr.satisfies, point_within_iff, has_line, Line.satisfies_contains]
  · rintro p a rfl rfl I
    have hexpr := containment_expresses (m := pointIn p a.contains) rfl hf hg hfresh
    rw [hexpr.satisfies, point_within_iff, has_area, Area.satisfies_contains]
  · intro m hm
    obtain ⟨m', hm'⟩ := exists_crossing_symm hm
    refine ⟨m', hm', fun names' hfresh' I => ?_⟩
    rw [(crossing_expresses hm hf hg hfresh).satisfies, (crossing_expresses hm' hg hf hfresh').satisfies]
    exact ⟨Meets.symm, Meets.symm⟩
  · intro h m m' hh hm hm'
    obtain ⟨m'', hm''⟩ := exists_containment_trans hm hm'
    refine ⟨m'', hm'', fun names' names'' hfresh' hfresh'' I hfg hgh => ?_⟩
    rw [(containment_expresses hm hf hg hfresh).satisfies] at hfg
    rw [(containment_expresses hm' hg hh hfresh').satisfies] at hgh
    exact ((containment_expresses hm'' hf hh hfresh'').satisfies I).2 (hfg.trans hgh)

/-- A pedestrian, whose offset bears the name of a coordinate that is bound later, on a crosswalk in
a corridor. The three relations take their points from two supplies. -/
theorem relations_mean_sets_on_crosswalk :
    let p : Point := ⟨.realConst "q!1_l", .int 2⟩
    let walk : Area := .centered (.named "crosswalk_0_pos") (.named "crosswalk_0_size")
    let road : Area := .corridor (.realConst "left_width") (.realConst "right_width")
    ((point p).Numeric ∧ (area walk).Numeric ∧ FreshFor ⟨0⟩ (point p) (area walk)) ∧
      Expresses (point p) (area walk) ((point p).Within · (area walk)) ((pointIn p walk.contains).run ⟨0⟩).1 ∧
      (∀ I : Interpretation, I.Satisfies ((pointIn p walk.contains).run ⟨0⟩).1 ↔ I.Satisfies (walk.contains p)) ∧
      ((area road).Numeric ∧ FreshFor ⟨1⟩ (area walk) (area road) ∧ FreshFor ⟨0⟩ (point p) (area road)) ∧
      ∀ I : Interpretation, I.Satisfies ((pointIn p walk.contains).run ⟨0⟩).1 →
        I.Satisfies ((includedIn walk.contains road.contains).run ⟨1⟩).1 →
        I.Satisfies ((pointIn p road.contains).run ⟨0⟩).1 := by
  intro p walk road
  have hnil : ∀ {name : String}, AllSpare name [] := List.forall_mem_nil _
  have hp : (point p).Numeric := by
    simp [p, Numeric, terms, Point.terms, Term.IsNumber, Term.WellSorted, Term.realConst, Term.sort, Signature.free]
  have hwalk : (area walk).Numeric := by
    simp [walk, Numeric, terms, Area.terms, Point.terms, Point.named, Term.IsNumber, Term.WellSorted, Term.realConst,
      Term.sort, Signature.free]
  have hroad : (area road).Numeric := by
    simp [road, Numeric, terms, Area.terms, Term.IsNumber, Term.WellSorted, Term.realConst, Term.sort, Signature.free]
  have hpw : FreshFor ⟨0⟩ (point p) (area walk) := by
    simp only [p, walk, FreshFor, terms, Area.terms, Point.terms, Point.named, allSpare_append, allSpare_cons,
      spares_realConst, spares_int]
    exact ⟨⟨by decide, trivial, hnil⟩, ⟨by decide, by decide, hnil⟩, by decide, by decide, hnil⟩
  have hwr : FreshFor ⟨1⟩ (area walk) (area road) := by
    simp only [walk, road, FreshFor, terms, Area.terms, Point.terms, Point.named, allSpare_append, allSpare_cons,
      spares_realConst]
    exact ⟨⟨⟨by decide, by decide, hnil⟩, by decide, by decide, hnil⟩, by decide, by decide, hnil⟩
  have hpr : FreshFor ⟨0⟩ (point p) (area road) := by
    simp only [p, road, FreshFor, terms, Area.terms, Point.terms, allSpare_append, allSpare_cons, spares_realConst,
      spares_int]
    exact ⟨⟨by decide, trivial, hnil⟩, by decide, by decide, hnil⟩
  obtain ⟨hexpr, -, -, -, -, hmember, -, htrans⟩ := relations_mean_sets hp hwalk hpw
  obtain ⟨m, hm, hinside⟩ := htrans (area road) _ _ hroad rfl rfl
  cases hm
  exact ⟨⟨hp, hwalk, hpw⟩, hexpr _ rfl, hmember p walk rfl rfl, ⟨hroad, hwr, hpr⟩, hinside ⟨1⟩ ⟨0⟩ hwr hpr⟩

end Figure

end RoadPolicy
