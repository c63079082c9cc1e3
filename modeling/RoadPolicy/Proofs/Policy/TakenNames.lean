/-
The names that operators take. An operator refuses its operands, combines their terms, or relates
figures of theirs over a fresh point; only the last takes a name, and then exactly one. What comes
out is tidy if the operands are.
-/
import RoadPolicy.Proofs.Formula.BoundNames
import RoadPolicy.Proofs.Policy.OperatorMeaning
import RoadPolicy.Proofs.Road.Coordinates

namespace RoadPolicy

/-- The term is tidy wherever the given terms are. -/
def Term.TidyFrom (ts : List Term) (t : Term) : Prop :=
  ∀ (D : Discipline) (bound : List String), (∀ s ∈ ts, s.Tidy D bound) → t.Tidy D bound

theorem Term.TidyFrom.mono {ts us : List Term} {t : Term} (h : t.TidyFrom ts) (hsub : ts ⊆ us) : t.TidyFrom us :=
  fun D bound hus => h D bound fun s hs => hus s (hsub hs)

/-! ## Figures -/

theorem Line.contains_tidyFrom (l : Line) (p : Point) : (l.contains p).TidyFrom (l.terms ++ p.terms) := by
  intro D bound h
  cases l <;> simp_all [contains, onRay, Point.squareDistance, terms, Point.terms]

theorem Area.contains_tidyFrom (a : Area) (p : Point) : (a.contains p).TidyFrom (a.terms ++ p.terms) := by
  intro D bound h
  cases a <;> simp_all [contains, terms, Point.terms]

theorem Encounter.timing_tidyFrom (e : Encounter) (ego obstacle : TrafficObject) (v : Point) :
    (e.timing (.between ego obstacle v)).TidyFrom (ego.numbers ++ (obstacle.numbers ++ v.terms)) := by
  intro D bound h
  have hego : ∀ s ∈ ego.pos.terms ++ ego.size.terms, s.Tidy D bound := fun s hs =>
    h s (by simp only [TrafficObject.numbers, List.mem_append] at hs ⊢; tauto)
  have hobstacle : ∀ s ∈ obstacle.pos.terms ++ obstacle.size.terms, s.Tidy D bound := fun s hs =>
    h s (by simp only [TrafficObject.numbers, List.mem_append] at hs ⊢; tauto)
  have hv : ∀ s ∈ v.terms, s.Tidy D bound := fun s hs => h s (by simp [hs])
  simp only [Point.terms, List.cons_append, List.nil_append, List.forall_mem_cons] at hego hobstacle hv
  cases e <;> simp [timing, Band.between, passesAt, hego, hobstacle, hv]

/-! ## Relations -/

/-- A relation between sets that are made of some terms, over the point of the next name. In an encounter
there is a condition on the time before it. -/
inductive Relation (ts : List Term) (names : NameSupply) : Term → Prop
  | sets {q : Quantifier} {body : Term} (h : body.TidyFrom (ts ++ (Point.named names.nextPoint).terms)) :
    Relation ts names (.quantified q (Point.binders names.nextPoint) body)
  | timed {timing paths : Term} (h : timing.TidyFrom ts) : Relation ts names paths →
    Relation ts names (.and [timing, paths])

/-- The computation takes one name, for a relation. -/
def Relating (ts : List Term) (x : Naming Term) : Prop :=
  ∀ names : NameSupply, Relation ts names (x.run names).1 ∧ (x.run names).2 = ⟨names.issued + 1⟩

namespace Relation

variable {ts us : List Term} {names : NameSupply} {t : Term}

theorem mono (h : Relation ts names t) (hsub : ts ⊆ us) : Relation us names t := by
  induction h with
  | sets h =>
    refine .sets (h.mono ?_)
    exact List.append_subset.2 ⟨fun s hs => List.mem_append_left _ (hsub hs), fun s hs => List.mem_append_right _ hs⟩
  | timed h _ ih => exact .timed (h.mono hsub) ih

/-- A relation is tidy where its point may be bound. -/
theorem tidy (h : Relation ts names t) {D D' : Discipline} (hts : ∀ s ∈ ts, s.Tidy D [])
    (hD : D.Below D') (hpoint : D' [] (Point.binders names.nextPoint)) :
    t.Tidy D' [] := by
  have hmono : ∀ bound, ∀ s ∈ ts, s.Tidy D' bound := fun bound s hs =>
    List.append_nil bound ▸ (hts s hs).mono bound fun _ _ => hD _ _ _
  induction h with
  | sets h =>
    refine ⟨hpoint, h D' _ (List.forall_mem_append.2 ⟨hmono _, ?_⟩)⟩
    simp [Point.terms, Point.named, Point.binders]
  | timed h _ ih =>
    exact Term.tidy_and.2 (List.forall_mem_cons.2 ⟨h D' [] (hmono []), List.forall_mem_singleton.2 ih⟩)

/-- A relation between figures without quantifiers binds its own point and nothing else. -/
theorem boundNames (h : Relation ts names t) (hts : ∀ s ∈ ts, s.Tidy .none []) :
    t.boundNames = coordinates names.issued := by
  have hmono : ∀ bound, ∀ s ∈ ts, s.Tidy .none bound := fun bound s hs =>
    List.append_nil bound ▸ (hts s hs).mono bound fun _ _ => id
  induction h with
  | @sets q body h =>
    have hbody : body.Tidy .none ((Point.binders names.nextPoint).map (·.name)) :=
      h .none _ (List.forall_mem_append.2 ⟨hmono _, by simp [Point.terms, Point.named, Point.binders]⟩)
    rw [Term.boundNames_quantified, hbody.boundNames_eq_nil fun _ _ => id, List.append_nil, names_binders]
  | @timed timing paths h _ ih =>
    have htiming : timing.boundNames = [] := (h .none [] (hmono [])).boundNames_eq_nil fun _ _ => id
    rw [Term.and, Term.boundNames_junction, List.flatMap_cons, List.flatMap_singleton, htiming, ih]
    rfl

end Relation

section

variable {ts us : List Term} {a b : Point → Term}

theorem Relating.mono {x : Naming Term} (h : Relating ts x) (hsub : ts ⊆ us) : Relating us x :=
  fun names => ⟨(h names).1.mono hsub, (h names).2⟩

theorem relating_quantifyPoint {q : Quantifier} {body : Point → Term}
    (h : ∀ p : Point, (body p).TidyFrom (ts ++ p.terms)) :
    Relating ts (quantifyPoint q body) := fun _ => ⟨.sets (h _), rfl⟩

theorem relating_pointIn {p : Point} (ha : ∀ x : Point, (a x).TidyFrom (us ++ x.terms)) :
    Relating (p.terms ++ us) (pointIn p a) := by
  refine relating_quantifyPoint fun x D bound h => ?_
  have hset := ha x D bound fun s hs => h s (by simp only [List.mem_append] at hs ⊢; tauto)
  simp only [Point.terms, List.forall_mem_append, List.forall_mem_cons] at h
  simp [h, hset]

theorem relating_includedIn (ha : ∀ x : Point, (a x).TidyFrom (ts ++ x.terms))
    (hb : ∀ x : Point, (b x).TidyFrom (us ++ x.terms)) : Relating (ts ++ us) (includedIn a b) := by
  refine relating_quantifyPoint fun x D bound h => ⟨ha x D bound fun s hs => h s ?_, hb x D bound fun s hs => h s ?_⟩
  all_goals
    simp only [List.mem_append] at hs ⊢
    tauto

theorem relating_meets (ha : ∀ x : Point, (a x).TidyFrom (ts ++ x.terms))
    (hb : ∀ x : Point, (b x).TidyFrom (us ++ x.terms)) : Relating (ts ++ us) (meets a b) := by
  refine relating_quantifyPoint fun x D bound h => Term.tidy_and.2 (List.forall_mem_cons.2
    ⟨ha x D bound fun s hs => h s ?_, List.forall_mem_singleton.2 (hb x D bound fun s hs => h s ?_)⟩)
  all_goals
    simp only [List.mem_append] at hs ⊢
    tauto

end

theorem Figure.relating_containment {f g : Figure} {x : Naming Term} (h : f.containment g = some x) :
    Relating (f.terms ++ g.terms) x := by
  cases f with
  | point p =>
    cases g with
    | point q => cases h
    | line l => cases h; exact relating_pointIn l.contains_tidyFrom
    | area a => cases h; exact relating_pointIn a.contains_tidyFrom
  | line l =>
    cases g with
    | area a => cases h; exact relating_includedIn l.contains_tidyFrom a.contains_tidyFrom
    | point | line => cases h
  | area a =>
    cases g with
    | area b => cases h; exact relating_includedIn a.contains_tidyFrom b.contains_tidyFrom
    | point | line => cases h

theorem Figure.relating_crossing {f g : Figure} {x : Naming Term} (h : f.crossing g = some x) :
    Relating (f.terms ++ g.terms) x := by
  cases f with
  | point p => cases h
  | line l =>
    cases g with
    | point q => cases h
    | line m => cases h; exact relating_meets l.contains_tidyFrom m.contains_tidyFrom
    | area a => cases h; exact relating_meets l.contains_tidyFrom a.contains_tidyFrom
  | area a =>
    cases g with
    | point q => cases h
    | line l =>
      cases h
      refine (relating_meets l.contains_tidyFrom a.contains_tidyFrom).mono (List.append_subset.2 ⟨?_, ?_⟩)
      all_goals simp [terms]
    | area b => cases h; exact relating_meets a.contains_tidyFrom b.contains_tidyFrom

theorem Encounter.relating_formula {e : Encounter} {ego obstacle : TrafficObject} {x : Naming Term}
    (h : e.formula ego obstacle = some x) : Relating (ego.numbers ++ obstacle.numbers) x := by
  unfold formula at h
  split at h
  · rename_i m n hm hn
    cases h
    have hego : m.trajectory.terms ⊆ ego.numbers := fun s hs => by simp [TrafficObject.numbers, hm, Motion.terms, hs]
    have hobstacle : n.trajectory.terms ⊆ obstacle.numbers := fun s hs => by
      simp [TrafficObject.numbers, hn, Motion.terms, hs]
    have hv : n.v.terms ⊆ obstacle.numbers := fun s hs => by simp [TrafficObject.numbers, hn, Motion.terms, hs]
    intro names
    have hpaths := (relating_meets m.trajectory.contains_tidyFrom n.trajectory.contains_tidyFrom).mono
      (List.append_subset.2 ⟨fun s hs => List.mem_append_left obstacle.numbers (hego hs),
        fun s hs => List.mem_append_right ego.numbers (hobstacle hs)⟩) names
    refine ⟨.timed ((e.timing_tidyFrom ego obstacle n.v).mono ?_) hpaths.1, hpaths.2⟩
    intro s hs
    simp only [List.mem_append] at hs ⊢
    rcases hs with hs | hs | hs
    · exact .inl hs
    · exact .inr hs
    · exact .inr (hv hs)
  · cases h
  · cases h

/-! ## Operands -/

namespace Operand

/-- All terms of an operand. -/
def terms : Operand → List Term
  | value v => v.terms
  | marker _ => []

/-- The numbers that a figure or an object is given by. -/
def numbers : Operand → List Term
  | value v => v.numbers
  | marker _ => []

variable {o : Operand} {t : Term}

theorem mem_terms_of_number (h : o.number = .ok t) : t ∈ o.terms := by
  rw [(number_eq_ok h).1]
  exact List.mem_singleton_self t

theorem mem_terms_of_boolean (h : o.boolean = .ok t) : t ∈ o.terms := by
  rw [(boolean_eq_ok h).1]
  exact List.mem_singleton_self t

theorem mem_terms_of_colorSignal (h : o.colorSignal = .ok t) : t ∈ o.terms := by
  unfold colorSignal at h
  split at h
  · rename_i e
    split at h
    · rename_i signal hc
      cases h
      have hmem : t ∈ (Value.object e).numbers := by simp [Value.numbers, TrafficObject.numbers, hc]
      exact Value.mem_terms_of_mem_numbers hmem
    · cases h
  · split at h
    · rename_i u hu
      cases h
      exact mem_terms_of_number hu
    · cases h

theorem mem_terms_of_turnSignal (h : o.turnSignal = .ok t) : t ∈ o.terms := by
  unfold turnSignal at h
  split at h
  · rename_i lane
    cases h
    have hmem : lane.turn ∈ (Value.lane lane).numbers := by simp [Value.numbers, Lane.terms]
    exact Value.mem_terms_of_mem_numbers hmem
  · split at h
    · rename_i u hu
      cases h
      exact mem_terms_of_number hu
    · cases h

theorem numbers_of_figure? {f : Figure} (h : o.figure? = some f) : f.terms = o.numbers := by
  rcases o with v | m
  · cases v <;> cases h <;> rfl
  · cases h

theorem numbers_of_object? {e : TrafficObject} (h : o.object? = some e) : e.numbers = o.numbers := by
  rcases o with v | m
  · cases v <;> cases h
    rfl
  · cases h

end Operand

theorem Color.formula_tidyFrom (c : Color) (signal : Term) : (c.formula signal).TidyFrom [signal] := by
  intro D bound h
  rw [List.forall_mem_singleton] at h
  cases c <;> simp [formula, h]

theorem Direction.formula_tidyFrom (d : Direction) (turn : Term) : (d.formula turn).TidyFrom [turn] := by
  intro D bound h
  rw [List.forall_mem_singleton] at h
  cases d <;> simp [formula, h]

/-! ## Operators -/

namespace Operator

/-- The operator relates figures or objects in space. -/
def isSpatial : Operator → Bool
  | inside | cross | stCross | stAbove | stBelow => true
  | _ => false

/-- What an operator can do: it refuses its operands, combines their terms, or takes a name for a relation. -/
inductive Acts (op : Operator) (args : List Operand) (names : NameSupply) : Except ApplyError Term × NameSupply → Prop
  | refused (e : ApplyError) : Acts op args names (.error e, names)
  | combined (t : Term) (hop : op.isSpatial = false) (h : t.TidyFrom (args.flatMap Operand.terms)) :
    Acts op args names (.ok t, names)
  | related (t : Term) (hop : op.isSpatial = true) (h : Relation (args.flatMap Operand.numbers) names t) :
    Acts op args names (.ok t, ⟨names.issued + 1⟩)

variable {op : Operator} {args : List Operand} {a b : Operand} {names : NameSupply}

theorem acts_plain {result : Except ApplyError Term} (hop : op.isSpatial = false)
    (h : ∀ t, result = .ok t → t.TidyFrom (args.flatMap Operand.terms)) :
    Acts op args names ((plain result).run.run names) := by
  rcases result with e | t
  · exact .refused e
  · exact .combined t hop (h t rfl)

theorem acts_spatial {result : Option (Naming Term)} {e : ApplyError} (hop : op.isSpatial = true)
    (h : ∀ x, result = some x → Relating (args.flatMap Operand.numbers) x) :
    Acts op args names ((spatial result e).run.run names) := by
  rcases result with _ | x
  · exact .refused e
  · obtain ⟨hrel, hnames⟩ := h x rfl names
    have hrun : (spatial (some x) e).run.run names = (.ok (x.run names).1, (x.run names).2) := rfl
    rw [hrun, hnames]
    exact .related _ hop hrel

theorem acts_numbers {f : Term → Term → Term} (hop : op.isSpatial = false) (hf : ∀ x y, (f x y).TidyFrom [x, y]) :
    Acts op [a, b] names ((plain (numbers a b f)).run.run names) := by
  refine acts_plain hop fun t h => ?_
  obtain ⟨x, hx, h⟩ := bind_eq_ok h
  obtain ⟨y, hy, h⟩ := bind_eq_ok h
  cases h
  refine (hf x y).mono ?_
  simp [Operand.mem_terms_of_number hx, Operand.mem_terms_of_number hy]

theorem acts_number {f : Term → Term} (hop : op.isSpatial = false) (hf : ∀ x, (f x).TidyFrom [x]) :
    Acts op [a] names ((plain do return f (← a.number)).run.run names) := by
  refine acts_plain hop fun t h => ?_
  obtain ⟨x, hx, h⟩ := bind_eq_ok h
  cases h
  refine (hf x).mono ?_
  simp [Operand.mem_terms_of_number hx]

theorem acts_equation {f : Term → Term → Term} (hop : op.isSpatial = false) (hf : ∀ x y, (f x y).TidyFrom [x, y]) :
    Acts op [a, b] names ((plain do
      let (x, y) ← a.comparable b
      return f x y).run.run names) := by
  refine acts_plain hop fun t h => ?_
  obtain ⟨⟨x, y⟩, hxy, h⟩ := bind_eq_ok h
  cases h
  obtain ⟨rfl, rfl, -⟩ := Operand.comparable_eq_ok hxy
  exact hf x y

theorem acts_junction {j : Junction} (hop : op.isSpatial = false) :
    Acts op args names ((plain do return Term.junction j (← args.mapM Operand.boolean)).run.run names) := by
  refine acts_plain hop fun t h => ?_
  obtain ⟨ts, hts, h⟩ := bind_eq_ok h
  cases h
  obtain ⟨rfl, -⟩ := Operand.mapM_boolean_eq_ok hts
  intro D bound hargs
  refine Term.tidy_junction.2 fun t ht => hargs t ?_
  exact List.mem_flatMap_of_mem (List.mem_map_of_mem ht) (List.mem_singleton_self t)

theorem acts_figures {relation : Figure → Figure → Option (Naming Term)} {err : Figure → Figure → ApplyError}
    (hop : op.isSpatial = true)
    (hrel : ∀ {f g : Figure} {x : Naming Term}, relation f g = some x → Relating (f.terms ++ g.terms) x) :
    Acts op [a, b] names ((match a.figures b with
      | .ok (f, g) => spatial (relation f g) (err f g)
      | .error e => throw e : Applying Term).run.run names) := by
  rcases hfg : a.figures b with e | ⟨f, g⟩
  · exact .refused e
  · obtain ⟨hf, hg⟩ := Operand.figures_eq_ok hfg
    refine acts_spatial hop fun x hx => (hrel hx).mono ?_
    rw [Operand.numbers_of_figure? hf, Operand.numbers_of_figure? hg]
    simp

theorem acts_encounter {k : Encounter} (hop : op.isSpatial = true) :
    Acts op [a, b] names ((encounter k a b).run.run names) := by
  unfold encounter
  rcases heo : a.objects b with e | ⟨e, o⟩
  · exact .refused e
  · obtain ⟨he, ho⟩ := Operand.objects_eq_ok heo
    refine acts_spatial hop fun x hx => (Encounter.relating_formula hx).mono ?_
    rw [Operand.numbers_of_object? he, Operand.numbers_of_object? ho]
    simp

theorem acts_signal {μ : Type} {signal : Operand → Except ApplyError Term} {mark : Operand → Except ApplyError μ}
    {formula : Term → μ → Term} (hop : op.isSpatial = false) (hsignal : ∀ {x}, signal a = .ok x → x ∈ a.terms)
    (hformula : ∀ x m, (formula x m).TidyFrom [x]) :
    Acts op [a, b] names ((plain do
      let x ← signal a
      let m ← mark b
      return formula x m).run.run names) := by
  refine acts_plain hop fun t h => ?_
  obtain ⟨x, hx, h⟩ := bind_eq_ok h
  obtain ⟨m, -, h⟩ := bind_eq_ok h
  cases h
  refine (hformula x m).mono ?_
  simp [hsignal hx]

/-- Every operator does one of these three. -/
theorem acts (op : Operator) (args : List Operand) (names : NameSupply) :
    Acts op args names ((op.apply args).run.run names) := by
  unfold apply
  split
  case isFalse => exact .refused _
  case isTrue =>
  unfold onOperands
  split
  · exact acts_junction rfl
  · exact acts_junction rfl
  · refine acts_plain rfl fun t h => ?_
    obtain ⟨x, hx, h⟩ := bind_eq_ok h
    cases h
    have hmem : x ∈ List.flatMap Operand.terms [_] := List.mem_flatMap_of_mem List.mem_cons_self
      (Operand.mem_terms_of_boolean hx)
    exact fun D bound h => h x hmem
  · exact acts_equation rfl fun x y D bound h => by simpa using h
  · exact acts_equation rfl fun x y D bound h => by simpa using h
  · exact acts_numbers rfl fun x y D bound h => by simpa using h
  · exact acts_numbers rfl fun x y D bound h => by simpa using h
  · exact acts_numbers rfl fun x y D bound h => by simpa using h
  · exact acts_numbers rfl fun x y D bound h => by simpa using h
  · exact acts_numbers rfl fun x y D bound h => by simpa using h
  · exact acts_number rfl fun x D bound h => by simpa using h
  · exact acts_numbers rfl fun x y D bound h => by simpa using h
  · exact acts_numbers rfl fun x y D bound h => by simpa using h
  · exact acts_numbers rfl fun x y D bound h => by simpa using h
  · exact acts_number rfl fun x D bound h => by simpa using h
  · exact acts_figures rfl Figure.relating_containment
  · exact acts_figures rfl Figure.relating_crossing
  · exact acts_signal rfl Operand.mem_terms_of_colorSignal fun x c => c.formula_tidyFrom x
  · exact acts_signal rfl Operand.mem_terms_of_turnSignal fun x d => d.formula_tidyFrom x
  · exact acts_encounter rfl
  · exact acts_encounter rfl
  · exact acts_encounter rfl
  · exact .refused _

end Operator

end RoadPolicy
