/-
Every operator means what its line of the table says. Where an operator accepts its operands, its
term is well-sorted, and what the term denotes in an interpretation is what the direct reading makes
of what the operands denote. There is one lemma for each way to take operands apart and then one case
for each operator.
-/
import RoadPolicy.Proofs.Computation
import RoadPolicy.Proofs.Policy.Reading
import RoadPolicy.Proofs.Road.SortedValues

namespace RoadPolicy

/-! ## Operands -/

namespace Operand

/-- What an operand stands for. -/
noncomputable def reading (I : Interpretation) : Operand → Reading
  | value v => v.reading I
  | marker m => .marker m

/-- The operand is well-sorted, and the figures and objects among its values have no marked constants. -/
def Sound (Γ : Signature) : Operand → Prop
  | value v => v.WellSorted Γ ∧ ∀ t ∈ v.numbers, t.Unmarked
  | marker _ => True

variable {Γ : Signature} {I : Interpretation} {o : Operand} {t : Term}

theorem sound_term : (term t).Sound Γ ↔ t.WellSorted Γ :=
  (and_iff_left (List.forall_mem_nil _)).trans Value.wellSorted_term

theorem reading_formula (h : t.sort = .bool) : (term t).reading I = .truth (I.Satisfies t) := if_pos h

theorem reading_number (h : t.sort ≠ .bool) : (term t).reading I = .number (I.amount t) := if_neg h

@[simp] theorem figure?_reading : (o.reading I).figure? = o.figure? := by
  rcases o with v | m
  · cases v with
    | term t => rw [reading, Value.reading]; split <;> rfl
    | point | line | area | lane | object => rfl
  · rfl

@[simp] theorem object?_reading : (o.reading I).object? = o.object? := by
  rcases o with v | m
  · cases v with
    | term t => rw [reading, Value.reading]; split <;> rfl
    | point | line | area | lane | object => rfl
  · rfl

/-! ## Operands that an operator accepts -/

theorem boolean_eq_ok (h : o.boolean = .ok t) : o = term t ∧ t.sort = .bool := by
  unfold boolean at h
  split at h
  · split at h
    · rename_i hs; cases h; exact ⟨rfl, hs⟩
    · cases h
  · cases h

theorem number_eq_ok (h : o.number = .ok t) : o = term t ∧ t.sort ≠ .bool := by
  unfold number at h
  split at h
  · split at h
    · cases h
    · rename_i hs; cases h; exact ⟨rfl, hs⟩
  · cases h

theorem comparable_eq_ok {p : Operand} {x y : Term} (h : o.comparable p = .ok (x, y)) :
    o = term x ∧ p = term y ∧ (x.sort = .bool ↔ y.sort = .bool) := by
  unfold comparable at h
  split at h
  · split at h
    · rename_i hs
      cases h
      refine ⟨rfl, rfl, ?_⟩
      rw [← beq_iff_eq, ← beq_iff_eq (b := TermSort.bool), hs]
    · cases h
  · cases h

theorem figures_eq_ok {p : Operand} {f g : Figure} (h : o.figures p = .ok (f, g)) :
    o.figure? = some f ∧ p.figure? = some g := by
  unfold figures at h
  split at h
  · rename_i hf hg; cases h; exact ⟨hf, hg⟩
  · cases h

theorem objects_eq_ok {p : Operand} {e q : TrafficObject} (h : o.objects p = .ok (e, q)) :
    o.object? = some e ∧ p.object? = some q := by
  unfold objects at h
  split at h
  · rename_i he hq; cases h; exact ⟨he, hq⟩
  · cases h

theorem mapM_boolean_eq_ok : ∀ {os : List Operand} {ts : List Term}, os.mapM boolean = .ok ts →
    os = ts.map term ∧ ∀ t ∈ ts, t.sort = .bool
  | [], ts, h => by cases h; simp
  | o :: os, ts, h => by
    rw [List.mapM_cons] at h
    obtain ⟨t, ho, h⟩ := bind_eq_ok h
    obtain ⟨us, hos, h⟩ := bind_eq_ok h
    cases h
    obtain ⟨rfl, hs⟩ := boolean_eq_ok ho
    obtain ⟨rfl, hall⟩ := mapM_boolean_eq_ok hos
    exact ⟨rfl, List.forall_mem_cons.2 ⟨hs, hall⟩⟩

theorem mapM_truth?_reading {ts : List Term} (h : ∀ t ∈ ts, t.sort = .bool) :
    ((ts.map term).map (reading I)).mapM Reading.truth? = some (ts.map I.Satisfies) := by
  induction ts with
  | nil => rfl
  | cons t ts ih =>
    rw [List.forall_mem_cons] at h
    rw [List.map_cons, List.map_cons, List.mapM_cons, ih h.2, reading_formula h.1]
    rfl

theorem isNumber_of_sound (hs : (term t).Sound Γ) (h : t.sort ≠ .bool) : t.IsNumber Γ := ⟨sound_term.1 hs, h⟩

theorem isFormula_of_sound (hs : (term t).Sound Γ) (h : t.sort = .bool) : t.IsFormula Γ := ⟨sound_term.1 hs, h⟩

theorem figure_sound {f : Figure} (hs : o.Sound Γ) (h : o.figure? = some f) :
    AllNumbers Γ f.terms ∧ ∀ t ∈ f.terms, t.Unmarked := by
  rcases o with v | m
  · cases v with
    | point | line | area => cases h; exact ⟨hs.1.numbers, hs.2⟩
    | term | lane | object => cases h
  · cases h

theorem object_sound {e : TrafficObject} (hs : o.Sound Γ) (h : o.object? = some e) :
    AllNumbers Γ e.numbers ∧ ∀ t ∈ e.numbers, t.Unmarked := by
  rcases o with v | m
  · cases v with
    | object => cases h; exact ⟨hs.1.numbers, hs.2⟩
    | term | lane | point | line | area => cases h
  · cases h

theorem colorSignal_eq_ok (hs : o.Sound Γ) (h : o.colorSignal = .ok t) :
    t.IsNumber Γ ∧ ∀ I, (o.reading I).colorSignal? I = some (I.amount t) := by
  unfold colorSignal at h
  split at h
  · rename_i e
    split at h
    · rename_i signal hc
      cases h
      refine ⟨hs.1.numbers t ?_, fun I => ?_⟩
      · simp [Value.numbers, TrafficObject.numbers, hc]
      · show e.color.map I.amount = _
        rw [hc]; rfl
    · cases h
  · split at h
    · rename_i u hu
      cases h
      obtain ⟨rfl, hsort⟩ := number_eq_ok hu
      exact ⟨isNumber_of_sound hs hsort, fun I => by rw [reading_number hsort]; rfl⟩
    · cases h

theorem turnSignal_eq_ok (hs : o.Sound Γ) (h : o.turnSignal = .ok t) :
    t.IsNumber Γ ∧ ∀ I, (o.reading I).turnSignal? I = some (I.amount t) := by
  unfold turnSignal at h
  split at h
  · rename_i lane
    cases h
    exact ⟨hs.1.numbers _ (by simp [Value.numbers, Lane.terms]), fun I => rfl⟩
  · split at h
    · rename_i u hu
      cases h
      obtain ⟨rfl, hsort⟩ := number_eq_ok hu
      exact ⟨isNumber_of_sound hs hsort, fun I => by rw [reading_number hsort]; rfl⟩
    · cases h

theorem color_eq_ok {c : Color} (h : o.color = .ok c) : o = marker (.color c) := by
  unfold color at h
  split at h
  · cases h; rfl
  · cases h

theorem direction_eq_ok {d : Direction} (h : o.direction = .ok d) : o = marker (.direction d) := by
  unfold direction at h
  split at h
  · cases h; rfl
  · cases h

end Operand

/-! ## Terms of the right meaning -/

namespace Operator

/-- The term is what the table makes of the operands. -/
structure Means (Γ : Signature) (op : Operator) (args : List Operand) (t : Term) : Prop where
  sorted : t.WellSorted Γ
  reading : ∀ I, op.reading I (args.map (Operand.reading I)) = some ((Operand.term t).reading I)

variable {Γ : Signature} {op : Operator} {args : List Operand} {a b : Operand} {t : Term}

theorem Means.of_formula (h : t.IsFormula Γ) (p : Interpretation → Prop) (hp : ∀ I, I.Satisfies t ↔ p I)
    (hr : ∀ I, op.reading I (args.map (Operand.reading I)) = some (.truth (p I))) : Means Γ op args t := by
  refine ⟨h.1, fun I => ?_⟩
  rw [hr, Operand.reading_formula h.2, propext (hp I)]

theorem Means.of_number (h : t.IsNumber Γ)
    (hr : ∀ I, op.reading I (args.map (Operand.reading I)) = some (.number (I.amount t))) : Means Γ op args t := by
  refine ⟨h.1, fun I => ?_⟩
  rw [hr, Operand.reading_number h.2]

theorem plain_eq_ok {result : Except ApplyError Term} {names names' : NameSupply}
    (h : (plain result).run.run names = (.ok t, names')) : result = .ok t := (Prod.mk.inj h).1

theorem numbers_eq_ok {f : Term → Term → Term} {names names' : NameSupply}
    (h : (plain (numbers a b f)).run.run names = (.ok t, names')) :
    ∃ x y, a.number = .ok x ∧ b.number = .ok y ∧ t = f x y := by
  obtain ⟨x, hx, h⟩ := bind_eq_ok (plain_eq_ok h)
  obtain ⟨y, hy, h⟩ := bind_eq_ok h
  cases h
  exact ⟨x, y, hx, hy, rfl⟩

theorem means_compared {f : Term → Term → Term} {r : Rat → Rat → Prop} {names names' : NameSupply}
    (hop : ∀ I x y, op.reading I [x, y] = Reading.compared r x y)
    (hf : ∀ x y, x.IsNumber Γ → y.IsNumber Γ → (f x y).IsFormula Γ)
    (hr : ∀ (I : Interpretation) x y, I.Satisfies (f x y) ↔ r (I.amount x) (I.amount y))
    (ha : a.Sound Γ) (hb : b.Sound Γ) (h : (plain (numbers a b f)).run.run names = (.ok t, names')) :
    Means Γ op [a, b] t := by
  obtain ⟨x, y, hx, hy, rfl⟩ := numbers_eq_ok h
  obtain ⟨rfl, hxs⟩ := Operand.number_eq_ok hx
  obtain ⟨rfl, hys⟩ := Operand.number_eq_ok hy
  refine .of_formula (hf x y (Operand.isNumber_of_sound ha hxs) (Operand.isNumber_of_sound hb hys))
    (fun I => r (I.amount x) (I.amount y)) (fun I => hr I x y) fun I => ?_
  simp only [List.map_cons, List.map_nil, hop, Operand.reading_number hxs, Operand.reading_number hys]
  rfl

theorem means_combined {f : Term → Term → Term} {g : Interpretation → Rat → Rat → Rat} {names names' : NameSupply}
    (hop : ∀ I x y, op.reading I [x, y] = Reading.combined (g I) x y)
    (hf : ∀ x y, x.IsNumber Γ → y.IsNumber Γ → (f x y).IsNumber Γ)
    (hg : ∀ (I : Interpretation) x y, I.amount (f x y) = g I (I.amount x) (I.amount y))
    (ha : a.Sound Γ) (hb : b.Sound Γ) (h : (plain (numbers a b f)).run.run names = (.ok t, names')) :
    Means Γ op [a, b] t := by
  obtain ⟨x, y, hx, hy, rfl⟩ := numbers_eq_ok h
  obtain ⟨rfl, hxs⟩ := Operand.number_eq_ok hx
  obtain ⟨rfl, hys⟩ := Operand.number_eq_ok hy
  refine .of_number (hf x y (Operand.isNumber_of_sound ha hxs) (Operand.isNumber_of_sound hb hys)) fun I => ?_
  simp only [List.map_cons, List.map_nil, hop, Operand.reading_number hxs, Operand.reading_number hys, hg]
  rfl

/-! ## Equations -/

theorem equality?_reading (ha : a.Sound Γ) (hb : b.Sound Γ) {x y : Term} (h : a.comparable b = .ok (x, y)) :
    (Term.eq x y).IsFormula Γ ∧
      ∀ I, (a.reading I).equality? (b.reading I) = some (I.Satisfies (.eq x y)) := by
  obtain ⟨rfl, rfl, hs⟩ := Operand.comparable_eq_ok h
  refine ⟨Term.isFormula_eq (Operand.sound_term.1 ha) (Operand.sound_term.1 hb) hs, fun I => ?_⟩
  by_cases hx : x.sort = .bool
  · have hfx := Operand.isFormula_of_sound ha hx
    have hfy := Operand.isFormula_of_sound hb (hs.1 hx)
    rw [Operand.reading_formula hx, Operand.reading_formula (hs.1 hx)]
    have hiff : I.Satisfies (.eq x y) ↔ (I.Satisfies x ↔ I.Satisfies y) := by
      rw [I.satisfies_eq, hfx.meaning_eq, hfy.meaning_eq, Datum.truth.injEq, Bool.eq_iff_iff]
      rfl
    rw [propext hiff]
    rfl
  · have hy : y.sort ≠ .bool := fun h => hx (hs.2 h)
    rw [Operand.reading_number hx, Operand.reading_number hy,
      propext (I.satisfies_eq_number (Operand.isNumber_of_sound ha hx) (Operand.isNumber_of_sound hb hy))]
    rfl

/-! ## Figures -/

theorem allSpare_of_unmarked {ts : List Term} (h : ∀ t ∈ ts, t.Unmarked) (names : NameSupply) :
    AllSpare names.nextPoint ts := fun t ht => (h t ht).spares names

theorem containment_relates {f g : Figure} {result : Naming Term} {names : NameSupply}
    (h : f.containment g = some result) (hf : AllNumbers Γ f.terms) (hg : AllNumbers Γ g.terms)
    (hf' : AllSpare names.nextPoint f.terms) (hg' : AllSpare names.nextPoint g.terms) :
    ∃ p, Relates Γ (result.run names).1 p ∧ ∀ I, f.inclusion? I g = some (p I) := by
  cases f with
  | point p =>
    cases g with
    | point q => cases h
    | line l => cases h; exact ⟨_, pointIn_relates hf hf' (Line.describes hg hg'), fun I => rfl⟩
    | area a => cases h; exact ⟨_, pointIn_relates hf hf' (Area.describes hg hg'), fun I => rfl⟩
  | line l =>
    cases g with
    | area a =>
      cases h
      exact ⟨_, includedIn_relates (Line.describes hf hf') (Area.describes hg hg'), fun I => rfl⟩
    | point | line => cases h
  | area a =>
    cases g with
    | area b =>
      cases h
      exact ⟨_, includedIn_relates (Area.describes hf hf') (Area.describes hg hg'), fun I => rfl⟩
    | point | line => cases h

/-- The line comes first in the formula, whatever the order of the operands. -/
theorem crossing_relates {f g : Figure} {result : Naming Term} {names : NameSupply}
    (h : f.crossing g = some result) (hf : AllNumbers Γ f.terms) (hg : AllNumbers Γ g.terms)
    (hf' : AllSpare names.nextPoint f.terms) (hg' : AllSpare names.nextPoint g.terms) :
    ∃ p, Relates Γ (result.run names).1 p ∧ ∀ I, f.intersection? I g = some (p I) := by
  cases f with
  | point p => cases h
  | line l =>
    cases g with
    | point q => cases h
    | line m => cases h; exact ⟨_, meets_relates (Line.describes hf hf') (Line.describes hg hg'), fun I => rfl⟩
    | area a => cases h; exact ⟨_, meets_relates (Line.describes hf hf') (Area.describes hg hg'), fun I => rfl⟩
  | area a =>
    cases g with
    | point q => cases h
    | line l =>
      cases h
      refine ⟨_, meets_relates (Line.describes hg hg') (Area.describes hf hf'), fun I => ?_⟩
      rw [Set.inter_comm]
      rfl
    | area b => cases h; exact ⟨_, meets_relates (Area.describes hf hf') (Area.describes hg hg'), fun I => rfl⟩

theorem means_spatial {result : Option (Naming Term)} {err : ApplyError} {names names' : NameSupply}
    (h : (spatial result err).run.run names = (.ok t, names')) :
    ∃ naming, result = some naming ∧ t = (naming.run names).1 := by
  unfold spatial at h
  split at h
  · rename_i naming
    refine ⟨naming, rfl, ?_⟩
    cases h
    rfl
  · cases h

theorem means_figures {names names' : NameSupply} {relation : Figure → Figure → Option (Naming Term)}
    {relation? : Interpretation → Figure → Figure → Option Prop} {err : Figure → Figure → ApplyError}
    (hop : ∀ I x y, op.reading I [x, y] =
      (x.figure?.bind fun f => y.figure?.bind fun g => relation? I f g).map .truth)
    (hrel : ∀ {f g : Figure} {result : Naming Term} {names : NameSupply}, relation f g = some result →
      AllNumbers Γ f.terms → AllNumbers Γ g.terms → AllSpare names.nextPoint f.terms →
      AllSpare names.nextPoint g.terms → ∃ p, Relates Γ (result.run names).1 p ∧ ∀ I, relation? I f g = some (p I))
    (ha : a.Sound Γ) (hb : b.Sound Γ)
    (h : (match a.figures b with
      | .ok (f, g) => spatial (relation f g) (err f g)
      | .error e => throw e : Applying Term).run.run names = (.ok t, names')) : Means Γ op [a, b] t := by
  rcases hfg : a.figures b with e | ⟨f, g⟩
  · rw [hfg] at h; cases h
  rw [hfg] at h
  obtain ⟨naming, hnaming, rfl⟩ := means_spatial h
  obtain ⟨hf, hg⟩ := Operand.figures_eq_ok hfg
  obtain ⟨hfn, hfu⟩ := Operand.figure_sound ha hf
  obtain ⟨hgn, hgu⟩ := Operand.figure_sound hb hg
  obtain ⟨p, hp, hread⟩ := hrel hnaming hfn hgn (allSpare_of_unmarked hfu names) (allSpare_of_unmarked hgu names)
  refine .of_formula hp.1 p hp.2 fun I => ?_
  simp only [List.map_cons, List.map_nil, hop, Operand.figure?_reading, hf, hg, Option.bind_some, hread,
    Option.map_some]

/-! ## Encounters -/

theorem mem_numbers_pos {o : TrafficObject} {t : Term} (h : t ∈ o.pos.terms) : t ∈ o.numbers := by
  simp [TrafficObject.numbers, h]

theorem mem_numbers_size {o : TrafficObject} {t : Term} (h : t ∈ o.size.terms) : t ∈ o.numbers := by
  simp [TrafficObject.numbers, h]

theorem mem_numbers_motion {o : TrafficObject} {m : Motion} (hm : o.motion = some m) {t : Term} (h : t ∈ m.terms) :
    t ∈ o.numbers := by
  simp [TrafficObject.numbers, hm, h]

/-- The condition on the band of two objects, in their numbers. -/
theorem timing_relates (k : Encounter) {e o : TrafficObject} {v : Point} (hep : AllNumbers Γ e.pos.terms)
    (hes : AllNumbers Γ e.size.terms) (hop : AllNumbers Γ o.pos.terms) (hos : AllNumbers Γ o.size.terms)
    (hv : AllNumbers Γ v.terms) : Relates Γ (k.timing (.between e o v)) fun I => k.OnTime I e o v := by
  rw [allNumbers_point] at hep hes hop hos hv
  constructor
  · cases k <;> simp [Encounter.timing, Band.between, passesAt, hep, hes, hop, hos, hv]
  · intro I
    -- the term negates the sum of the half widths, the reading takes them off one by one
    have ha : I.amount (Band.between e o v).a =
        I.divide (-I.amount e.size.l - I.amount o.size.l - I.amount o.pos.l) (I.amount v.l) * I.amount v.s +
          I.amount o.pos.s := by
      have harg : -(I.amount e.size.l + I.amount o.size.l) - I.amount o.pos.l =
          -I.amount e.size.l - I.amount o.size.l - I.amount o.pos.l := by ring
      rw [← harg]
      rfl
    have hlo : I.amount (Band.between e o v).lo = I.amount e.pos.s - I.amount e.size.s - I.amount o.size.s := by
      rw [sub_sub]
      rfl
    have hhi : I.amount (Band.between e o v).hi = I.amount e.pos.s + I.amount e.size.s + I.amount o.size.s := by
      rw [add_assoc]
      rfl
    have hb : I.amount (Band.between e o v).b =
        I.divide (I.amount e.size.l + I.amount o.size.l - I.amount o.pos.l) (I.amount v.l) * I.amount v.s +
          I.amount o.pos.s := rfl
    rw [k.satisfies_timing, ha, hb, hlo, hhi]
    rfl

theorem encounter_relates {k : Encounter} {e o : TrafficObject} {result : Naming Term} {names : NameSupply}
    (h : k.formula e o = some result) (he : AllNumbers Γ e.numbers) (ho : AllNumbers Γ o.numbers)
    (he' : AllSpare names.nextPoint e.numbers) (ho' : AllSpare names.nextPoint o.numbers) :
    ∃ p, Relates Γ (result.run names).1 p ∧ ∀ I, k.reading? I e o = some (p I) := by
  unfold Encounter.formula at h
  split at h
  · rename_i m n hm hn
    cases h
    -- the numbers of a trajectory are numbers of its object, so no fresh name is free in them
    have hmem : ∀ t ∈ m.trajectory.terms, t ∈ e.numbers := fun t ht =>
      mem_numbers_motion hm (by simp [Motion.terms, ht])
    have hnem : ∀ t ∈ n.trajectory.terms, t ∈ o.numbers := fun t ht =>
      mem_numbers_motion hn (by simp [Motion.terms, ht])
    have hpaths := meets_relates (Line.describes (fun t ht => he t (hmem t ht)) fun t ht => he' t (hmem t ht))
      (Line.describes (fun t ht => ho t (hnem t ht)) fun t ht => ho' t (hnem t ht))
    have htiming := timing_relates k (fun t ht => he t (mem_numbers_pos ht)) (fun t ht => he t (mem_numbers_size ht))
      (fun t ht => ho t (mem_numbers_pos ht)) (fun t ht => ho t (mem_numbers_size ht))
      (fun t ht => ho t (mem_numbers_motion hn (List.mem_append_left _ ht)))
    refine ⟨fun I => k.OnTime I e o n.v ∧ (m.trajectory.points I ∩ n.trajectory.points I).Nonempty, ⟨?_, fun I => ?_⟩,
      fun I => ?_⟩
    · exact Term.isFormula_and.2 (List.forall_mem_cons.2 ⟨htiming.1, List.forall_mem_singleton.2 hpaths.1⟩)
    · exact (I.satisfies_and_pair _ _).trans (and_congr (htiming.2 I) (hpaths.2 I))
    · rw [Encounter.reading?, hm, hn]
      rfl
  · cases h
  · cases h

theorem means_encounter {k : Encounter} {names names' : NameSupply}
    (hop : ∀ I x y, op.reading I [x, y] =
      (x.object?.bind fun e => y.object?.bind fun o => k.reading? I e o).map .truth)
    (ha : a.Sound Γ) (hb : b.Sound Γ) (h : (encounter k a b).run.run names = (.ok t, names')) :
    Means Γ op [a, b] t := by
  unfold encounter at h
  split at h
  · rename_i e o heo
    obtain ⟨naming, hnaming, rfl⟩ := means_spatial h
    obtain ⟨he, ho⟩ := Operand.objects_eq_ok heo
    obtain ⟨hen, heu⟩ := Operand.object_sound ha he
    obtain ⟨hon, hou⟩ := Operand.object_sound hb ho
    obtain ⟨p, hp, hread⟩ := encounter_relates hnaming hen hon (allSpare_of_unmarked heu names)
      (allSpare_of_unmarked hou names)
    refine .of_formula hp.1 p hp.2 fun I => ?_
    simp only [List.map_cons, List.map_nil, hop, Operand.object?_reading, he, ho, Option.bind_some, hread,
      Option.map_some]
  · cases h

/-! ## Signals -/

theorem color_relates (c : Color) (h : t.IsNumber Γ) : Relates Γ (c.formula t) fun I => c.Shown (I.amount t) := by
  cases c with
  | yellow =>
    refine ⟨h.isFormula_eq (Term.isNumber_int 1), fun I => ?_⟩
    rw [Color.formula, I.satisfies_eq_number h (Term.isNumber_int (Γ := Γ) 1)]
    simp [Color.Shown]
  | green | unknown => exact ⟨by simp [Color.formula, h], fun I => by simp [Color.formula, Color.Shown]⟩
  | red => exact ⟨by simp [Color.formula, h], fun I => by simp [Color.formula, Color.Shown, and_comm]⟩

theorem direction_relates (d : Direction) (h : t.IsNumber Γ) :
    Relates Γ (d.formula t) fun I => d.Taken (I.amount t) := by
  cases d with
  | straight =>
    refine ⟨h.isFormula_eq (Term.isNumber_int 0), fun I => ?_⟩
    rw [Direction.formula, I.satisfies_eq_number h (Term.isNumber_int (Γ := Γ) 0)]
    simp [Direction.Taken]
  | left | right => exact ⟨by simp [Direction.formula, h], fun I => by simp [Direction.formula, Direction.Taken]⟩

theorem amount_abs (I : Interpretation) (t : Term) : I.amount t.abs = |I.amount t| := by
  have hge : ((t.ge (.int 0)).meaning I).isTrue = true ↔ 0 ≤ I.amount t := (I.satisfies_ge t (.int 0)).trans (by simp)
  show ((Term.ite (t.ge (.int 0)) t (-t)).meaning I).amount = _
  rw [Term.meaning]
  by_cases h : 0 ≤ I.amount t
  · rw [if_pos (hge.2 h), abs_of_nonneg h]
    rfl
  · rw [if_neg fun hc => h (hge.1 hc), abs_of_neg (not_le.1 h)]
    rfl

theorem isNumber_abs (h : t.IsNumber Γ) : t.abs.IsNumber Γ := by
  have hneg : (-t).IsNumber Γ := Term.isNumber_neg.2 h
  refine ⟨⟨Term.isFormula_ge.2 ⟨h, Term.isNumber_int 0⟩, h.1, hneg.1, ?_⟩, ?_⟩
  · simp [h.2, hneg.2]
  · rw [Term.abs, ne_eq, Term.ite_sort_eq_bool_iff]
    exact h.2

/-! ## All operators -/

theorem length_of_accepts {n m : Nat} (h : (Arity.exactly n).accepts m = true) : m = n := by
  simpa [Arity.accepts] using h

theorem sound_singleton (hlen : args.length = 1) (h : ∀ o ∈ args, o.Sound Γ) : ∃ a, args = [a] ∧ a.Sound Γ := by
  obtain ⟨a, rfl⟩ := List.length_eq_one_iff.1 hlen
  exact ⟨a, rfl, h a (by simp)⟩

theorem sound_pair (hlen : args.length = 2) (h : ∀ o ∈ args, o.Sound Γ) :
    ∃ a b, args = [a, b] ∧ a.Sound Γ ∧ b.Sound Γ := by
  obtain ⟨a, b, rfl⟩ := List.length_eq_two.1 hlen
  exact ⟨a, b, rfl, h a (by simp), h b (by simp)⟩

theorem means_junction {j : Junction} {names names' : NameSupply} {q : List Prop → Prop}
    (hq : ∀ (I : Interpretation) ts, I.Satisfies (.junction j ts) ↔ q (ts.map I.Satisfies))
    (hop : ∀ I r rs, op.reading I (r :: rs) = ((r :: rs).mapM Reading.truth?).map fun ps => .truth (q ps))
    (hn : (Arity.atLeast 1).accepts args.length = true) (hargs : ∀ o ∈ args, o.Sound Γ)
    (h : (plain do return Term.junction j (← args.mapM Operand.boolean)).run.run names = (.ok t, names')) :
    Means Γ op args t := by
  obtain ⟨ts, hts, h⟩ := bind_eq_ok (plain_eq_ok h)
  cases h
  obtain ⟨rfl, hsort⟩ := Operand.mapM_boolean_eq_ok hts
  refine .of_formula (Term.isFormula_junction.2 fun u hu => ?_) (fun I => q (ts.map I.Satisfies)) (fun I => hq I ts)
    fun I => ?_
  · exact Operand.isFormula_of_sound (hargs _ (List.mem_map_of_mem hu)) (hsort u hu)
  · have hread := Operand.mapM_truth?_reading (I := I) hsort
    cases ts with
    | nil => cases hn
    | cons u us =>
      rw [List.map_cons, List.map_cons] at hread ⊢
      rw [hop, hread]
      rfl

theorem means_of_boolean {names names' : NameSupply} (ha : a.Sound Γ)
    (h : (plain do return Term.not (← a.boolean)).run.run names = (.ok t, names')) : Means Γ .not [a] t := by
  obtain ⟨x, hx, h⟩ := bind_eq_ok (plain_eq_ok h)
  cases h
  obtain ⟨rfl, hs⟩ := Operand.boolean_eq_ok hx
  refine .of_formula (Term.isFormula_not.2 (Operand.isFormula_of_sound ha hs)) (fun I => ¬ I.Satisfies x)
    (fun I => I.satisfies_not x) fun I => ?_
  rw [List.map_singleton, Operand.reading_formula hs]
  rfl

theorem means_of_number {names names' : NameSupply} {f : Term → Term} {g : Rat → Rat}
    (hop : ∀ I r, op.reading I [r] = r.number?.map fun x => .number (g x))
    (hf : ∀ x, x.IsNumber Γ → (f x).IsNumber Γ) (hg : ∀ (I : Interpretation) x, I.amount (f x) = g (I.amount x))
    (ha : a.Sound Γ) (h : (plain do return f (← a.number)).run.run names = (.ok t, names')) : Means Γ op [a] t := by
  obtain ⟨x, hx, h⟩ := bind_eq_ok (plain_eq_ok h)
  cases h
  obtain ⟨rfl, hs⟩ := Operand.number_eq_ok hx
  refine .of_number (hf x (Operand.isNumber_of_sound ha hs)) fun I => ?_
  rw [List.map_singleton, Operand.reading_number hs, hop, hg]
  rfl

theorem means_equation {names names' : NameSupply} {f : Term → Term} {q : Prop → Prop}
    (hop : ∀ I x y, op.reading I [x, y] = (x.equality? y).map fun p => .truth (q p))
    (hf : ∀ x, x.IsFormula Γ → (f x).IsFormula Γ) (hq : ∀ (I : Interpretation) x, I.Satisfies (f x) ↔ q (I.Satisfies x))
    (ha : a.Sound Γ) (hb : b.Sound Γ)
    (h : (plain do let (x, y) ← a.comparable b; return f (.eq x y)).run.run names = (.ok t, names')) :
    Means Γ op [a, b] t := by
  obtain ⟨⟨x, y⟩, hxy, h⟩ := bind_eq_ok (plain_eq_ok h)
  cases h
  obtain ⟨hform, hread⟩ := equality?_reading ha hb hxy
  refine .of_formula (hf _ hform) (fun I => q (I.Satisfies (.eq x y))) (fun I => hq I _) fun I => ?_
  simp only [List.map_cons, List.map_nil, hop, hread, Option.map_some]

/-- A signal and a marker that it is compared with. -/
theorem means_signal {μ : Type} {marker : μ → Marker} {signal : Operand → Except ApplyError Term}
    {mark : Operand → Except ApplyError μ} {formula : Term → μ → Term}
    {signal? : Interpretation → Reading → Option Rat} {shown : μ → Rat → Prop} {names names' : NameSupply}
    (hop : ∀ I r m, op.reading I [r, .marker (marker m)] = (signal? I r).map fun v => .truth (shown m v))
    (hsignal : ∀ {x}, signal a = .ok x → x.IsNumber Γ ∧ ∀ I, signal? I (a.reading I) = some (I.amount x))
    (hmark : ∀ {m}, mark b = .ok m → b = .marker (marker m))
    (hrel : ∀ m {x}, x.IsNumber Γ → Relates Γ (formula x m) fun I => shown m (I.amount x))
    (h : (plain do
      let x ← signal a
      let m ← mark b
      return formula x m).run.run names = (.ok t, names')) : Means Γ op [a, b] t := by
  obtain ⟨x, hx, h⟩ := bind_eq_ok (plain_eq_ok h)
  obtain ⟨m, hm, h⟩ := bind_eq_ok h
  cases h
  obtain rfl := hmark hm
  obtain ⟨hnum, hread⟩ := hsignal hx
  refine .of_formula (hrel m hnum).1 (fun I => shown m (I.amount x)) (hrel m hnum).2 fun I => ?_
  rw [List.map_cons, List.map_singleton, Operand.reading, hop, hread]
  rfl

/-- What an operator returns is what the table says. -/
theorem apply_means {names names' : NameSupply} (hargs : ∀ o ∈ args, o.Sound Γ)
    (h : (op.apply args).run.run names = (.ok t, names')) : Means Γ op args t := by
  unfold apply at h
  split at h
  case isFalse => cases h
  case isTrue hn =>
  -- the number of operands is right, so every operator is at its own line of the table
  cases op with
  | and =>
    refine means_junction (q := fun ps => ∀ p ∈ ps, p) (fun I ts => ?_) (fun _ _ _ => rfl) hn hargs h
    rw [List.forall_mem_map]
    exact I.satisfies_and ts
  | or =>
    refine means_junction (q := fun ps => ∃ p ∈ ps, p) (fun I ts => ?_) (fun _ _ _ => rfl) hn hargs h
    rw [show Term.junction .disj ts = Term.or ts from rfl, I.satisfies_or]
    constructor
    · rintro ⟨u, hu, hsat⟩
      exact ⟨_, List.mem_map_of_mem hu, hsat⟩
    · rintro ⟨p, hp, hsat⟩
      obtain ⟨u, hu, rfl⟩ := List.mem_map.1 hp
      exact ⟨u, hu, hsat⟩
  | not =>
    obtain ⟨a, rfl, ha⟩ := sound_singleton (length_of_accepts hn) hargs
    exact means_of_boolean ha h
  | eq =>
    obtain ⟨a, b, rfl, ha, hb⟩ := sound_pair (length_of_accepts hn) hargs
    exact means_equation (f := id) (q := id) (fun _ _ _ => rfl) (fun _ hx => hx) (fun _ _ => Iff.rfl) ha hb h
  | ne =>
    obtain ⟨a, b, rfl, ha, hb⟩ := sound_pair (length_of_accepts hn) hargs
    exact means_equation (fun _ _ _ => rfl) (fun _ hx => Term.isFormula_not.2 hx) (fun I x => I.satisfies_not x) ha hb h
  | lt =>
    obtain ⟨a, b, rfl, ha, hb⟩ := sound_pair (length_of_accepts hn) hargs
    exact means_compared (fun _ _ _ => rfl) (fun x y hx hy => Term.isFormula_lt.2 ⟨hx, hy⟩) (fun I => I.satisfies_lt)
      ha hb h
  | le =>
    obtain ⟨a, b, rfl, ha, hb⟩ := sound_pair (length_of_accepts hn) hargs
    exact means_compared (fun _ _ _ => rfl) (fun x y hx hy => Term.isFormula_le.2 ⟨hx, hy⟩) (fun I => I.satisfies_le)
      ha hb h
  | gt =>
    obtain ⟨a, b, rfl, ha, hb⟩ := sound_pair (length_of_accepts hn) hargs
    exact means_compared (fun _ _ _ => rfl) (fun x y hx hy => Term.isFormula_gt.2 ⟨hx, hy⟩) (fun I => I.satisfies_gt)
      ha hb h
  | ge =>
    obtain ⟨a, b, rfl, ha, hb⟩ := sound_pair (length_of_accepts hn) hargs
    exact means_compared (fun _ _ _ => rfl) (fun x y hx hy => Term.isFormula_ge.2 ⟨hx, hy⟩) (fun I => I.satisfies_ge)
      ha hb h
  | add =>
    obtain ⟨a, b, rfl, ha, hb⟩ := sound_pair (length_of_accepts hn) hargs
    exact means_combined (fun _ _ _ => rfl) (fun x y hx hy => Term.isNumber_add.2 ⟨hx, hy⟩) (fun I => I.amount_add)
      ha hb h
  | sub =>
    have hlen : args.length = 1 ∨ args.length = 2 := by simpa [arity, Arity.accepts] using hn
    rcases hlen with hlen | hlen
    · obtain ⟨a, rfl, ha⟩ := sound_singleton hlen hargs
      exact means_of_number (fun _ _ => rfl) (fun x hx => Term.isNumber_neg.2 hx) (fun I => I.amount_neg) ha h
    · obtain ⟨a, b, rfl, ha, hb⟩ := sound_pair hlen hargs
      exact means_combined (fun _ _ _ => rfl) (fun x y hx hy => Term.isNumber_sub.2 ⟨hx, hy⟩) (fun I => I.amount_sub)
        ha hb h
  | mul =>
    obtain ⟨a, b, rfl, ha, hb⟩ := sound_pair (length_of_accepts hn) hargs
    exact means_combined (fun _ _ _ => rfl) (fun x y hx hy => Term.isNumber_mul.2 ⟨hx, hy⟩) (fun I => I.amount_mul)
      ha hb h
  | div =>
    obtain ⟨a, b, rfl, ha, hb⟩ := sound_pair (length_of_accepts hn) hargs
    exact means_combined (fun _ _ _ => rfl) (fun x y hx hy => Term.isNumber_div.2 ⟨hx, hy⟩) (fun I => I.amount_div)
      ha hb h
  | abs =>
    obtain ⟨a, rfl, ha⟩ := sound_singleton (length_of_accepts hn) hargs
    exact means_of_number (fun _ _ => rfl) (fun x hx => isNumber_abs hx) amount_abs ha h
  | inside =>
    obtain ⟨a, b, rfl, ha, hb⟩ := sound_pair (length_of_accepts hn) hargs
    exact means_figures (fun _ _ _ => rfl) containment_relates ha hb h
  | cross =>
    obtain ⟨a, b, rfl, ha, hb⟩ := sound_pair (length_of_accepts hn) hargs
    exact means_figures (fun _ _ _ => rfl) crossing_relates ha hb h
  | isColor =>
    obtain ⟨a, b, rfl, ha, hb⟩ := sound_pair (length_of_accepts hn) hargs
    exact means_signal (fun _ _ _ => rfl) (Operand.colorSignal_eq_ok ha) Operand.color_eq_ok
      (fun c _ => color_relates c) h
  | isDirection =>
    obtain ⟨a, b, rfl, ha, hb⟩ := sound_pair (length_of_accepts hn) hargs
    exact means_signal (fun _ _ _ => rfl) (Operand.turnSignal_eq_ok ha) Operand.direction_eq_ok
      (fun d _ => direction_relates d) h
  | stCross | stAbove | stBelow =>
    obtain ⟨a, b, rfl, ha, hb⟩ := sound_pair (length_of_accepts hn) hargs
    exact means_encounter (fun _ _ _ => rfl) ha hb h

end Operator

end RoadPolicy
