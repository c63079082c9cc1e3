/-
Operators keep to their table: an operator accepts its operands exactly if the table lists their
kinds, and then its term has the kind that the table gives, with fitting sorts. For each way to read
an operand there is one lemma that says what is accepted and what is refused, and for each way to
combine operands one that judges the result.
-/
import RoadPolicy.Proofs.Policy.OperatorMeaning
import RoadPolicy.Proofs.Policy.Typing
import RoadPolicy.Proofs.Road.FittingFigures

namespace RoadPolicy

variable {Γ : Signature}

/-- The sorts in a value fit, and what it is made of are numbers. -/
structure Value.Fits (Γ : Signature) (v : Value) : Prop where
  term : ∀ t, v = .term t → t.Fits Γ
  numbers : AllFit Γ v.numbers

theorem Value.WellSorted.fits {v : Value} (h : v.WellSorted Γ) : v.Fits Γ :=
  ⟨fun t ht => (h.term t ht).fits, fun t ht => ⟨(h.numbers t ht).1.fits, (h.numbers t ht).2⟩⟩

/-- The kinds of figures. -/
def Kind.IsFigure : Kind → Prop
  | point | line | area => True
  | _ => False

namespace Operand

def shape : Operand → Kind
  | value v => v.shape
  | marker m => m.shape

/-- The sorts in an operand fit. -/
def Fits (Γ : Signature) : Operand → Prop
  | value v => v.Fits Γ
  | marker _ => True

variable {o : Operand} {t : Term}

theorem fits_term : (term t).Fits Γ ↔ t.Fits Γ := by
  constructor
  · intro h; exact h.term t rfl
  · intro h
    refine ⟨?_, allFit_nil⟩
    intro u hu
    cases hu
    exact h

theorem shape_formula (h : t.sort = .bool) : (term t).shape = .bool := if_pos h

theorem shape_number (h : t.sort ≠ .bool) : (term t).shape = .number := if_neg h

theorem shape_eq_bool_iff : o.shape = .bool ↔ ∃ t, o = term t ∧ t.sort = .bool := by
  constructor
  · intro h
    rcases o with v | m
    · cases v with
      | term t =>
        refine ⟨t, rfl, ?_⟩
        by_contra hsort
        exact Kind.noConfusion ((shape_number hsort).symm.trans h)
      | point | line | area | lane | object => cases h
    · cases m <;> cases h
  · rintro ⟨t, rfl, hsort⟩
    exact shape_formula hsort

theorem shape_eq_number_iff : o.shape = .number ↔ ∃ t, o = term t ∧ t.sort ≠ .bool := by
  constructor
  · intro h
    rcases o with v | m
    · cases v with
      | term t =>
        refine ⟨t, rfl, fun hsort => ?_⟩
        exact Kind.noConfusion ((shape_formula hsort).symm.trans h)
      | point | line | area | lane | object => cases h
    · cases m <;> cases h
  · rintro ⟨t, rfl, hsort⟩
    exact shape_number hsort

/-! ## Reading operands -/

theorem boolean_term (h : t.sort = .bool) : (term t).boolean = .ok t := if_pos h

theorem number_term (h : t.sort ≠ .bool) : (term t).number = .ok t := if_neg h

theorem boolean_refused {e : ApplyError} (h : o.boolean = .error e) : o.shape ≠ .bool := by
  intro hshape
  obtain ⟨t, rfl, hsort⟩ := shape_eq_bool_iff.1 hshape
  rw [boolean_term hsort] at h
  cases h

theorem number_refused {e : ApplyError} (h : o.number = .error e) : o.shape ≠ .number := by
  intro hshape
  obtain ⟨t, rfl, hsort⟩ := shape_eq_number_iff.1 hshape
  rw [number_term hsort] at h
  cases h

theorem mapM_boolean_refused : ∀ {os : List Operand} {e : ApplyError}, os.mapM boolean = .error e →
    ∃ o ∈ os, o.shape ≠ .bool
  | [], e, h => by cases h
  | o :: os, e, h => by
    rw [List.mapM_cons] at h
    rcases ho : o.boolean with e' | t
    · exact ⟨o, List.mem_cons_self .., boolean_refused ho⟩
    · rw [ho] at h
      rcases hos : os.mapM boolean with e' | ts
      · obtain ⟨p, hp, hshape⟩ := mapM_boolean_refused hos
        exact ⟨p, List.mem_cons_of_mem _ hp, hshape⟩
      · rw [hos] at h
        cases h

theorem comparable_refused {p : Operand} {e : ApplyError} (h : o.comparable p = .error e) :
    ¬ (o.shape = .bool ∧ p.shape = .bool ∨ o.shape = .number ∧ p.shape = .number) := by
  rintro (⟨ho, hp⟩ | ⟨ho, hp⟩)
  · obtain ⟨t, rfl, ht⟩ := shape_eq_bool_iff.1 ho
    obtain ⟨u, rfl, hu⟩ := shape_eq_bool_iff.1 hp
    simp [comparable, term, ht, hu] at h
  · obtain ⟨t, rfl, ht⟩ := shape_eq_number_iff.1 ho
    obtain ⟨u, rfl, hu⟩ := shape_eq_number_iff.1 hp
    simp [comparable, term, beq_eq_false_iff_ne.2 ht, beq_eq_false_iff_ne.2 hu] at h

/-- An operand is a figure of its kind, or its kind is none of a figure. -/
theorem figure_cases (o : Operand) :
    (∃ f, o.figure? = some f ∧ o.shape = f.shape ∧ (o.Fits Γ → AllFit Γ f.terms)) ∨
      o.figure? = none ∧ ¬ o.shape.IsFigure := by
  rcases o with v | m
  · cases v with
    | point p => exact .inl ⟨.point p, rfl, rfl, fun h => h.numbers⟩
    | line l => exact .inl ⟨.line l, rfl, rfl, fun h => h.numbers⟩
    | area a => exact .inl ⟨.area a, rfl, rfl, fun h => h.numbers⟩
    | term t =>
      refine .inr ⟨rfl, ?_⟩
      change ¬ t.shape.IsFigure
      unfold Term.shape
      split <;> exact id
    | lane | object => exact .inr ⟨rfl, id⟩
  · cases m <;> exact .inr ⟨rfl, id⟩

/-- An operand is an object of its kind, or its kind is none of an object. -/
theorem object_cases (o : Operand) :
    (∃ e, o.object? = some e ∧ o.shape = e.shape ∧ (o.Fits Γ → AllFit Γ e.numbers)) ∨
      o.object? = none ∧ ∀ moving colored, o.shape ≠ .object moving colored := by
  rcases o with v | m
  · cases v with
    | object e => exact .inl ⟨e, rfl, rfl, fun h => h.numbers⟩
    | term t =>
      refine .inr ⟨rfl, fun moving colored => ?_⟩
      change t.shape ≠ _
      unfold Term.shape
      split <;> exact Kind.noConfusion
    | point | line | area | lane => exact .inr ⟨rfl, fun _ _ => Kind.noConfusion⟩
  · cases m <;> exact .inr ⟨rfl, fun _ _ => Kind.noConfusion⟩

/-- A reader of signals accepts exactly the kinds with a property, and what it reads is a number. -/
def ReadsSignal (Γ : Signature) (signal : Operand → Except ApplyError Term) (P : Kind → Prop) (o : Operand) : Prop :=
  match signal o with
  | .ok x => P o.shape ∧ (o.Fits Γ → x.FitsNumber Γ)
  | .error _ => ¬ P o.shape

theorem readsSignal_term {signal : Operand → Except ApplyError Term} {P : Kind → Prop} {e : ApplyError}
    (hsignal : signal (term t) = match (term t).number with
      | .ok x => .ok x
      | .error _ => .error e)
    (hnumber : P .number) (hbool : ¬ P .bool) : ReadsSignal Γ signal P (term t) := by
  unfold ReadsSignal
  by_cases hsort : t.sort = .bool
  · have hrefused : (term t).number = .error (.expectedNumber (term t).kind) := if_pos hsort
    rw [hsignal, hrefused, shape_formula hsort]
    exact hbool
  · rw [hsignal, number_term hsort, shape_number hsort]
    exact ⟨hnumber, fun h => ⟨fits_term.1 h, hsort⟩⟩

theorem colorSignal_reads (o : Operand) :
    ReadsSignal Γ colorSignal (fun k => k = .number ∨ ∃ moving, k = .object moving true) o := by
  rcases o with v | m
  · cases v with
    | term t => exact readsSignal_term rfl (.inl rfl) (by simp)
    | object e =>
      rw [ReadsSignal, colorSignal]
      rcases hc : e.color with _ | x
      · simp [shape, Value.shape, TrafficObject.shape, hc]
      · refine ⟨.inr ⟨e.motion.isSome, by simp [shape, Value.shape, TrafficObject.shape, hc]⟩, fun h => ?_⟩
        exact h.numbers x (by simp [Value.numbers, TrafficObject.numbers, hc])
    | point | line | area | lane => simp [ReadsSignal, colorSignal, number, shape, Value.shape]
  · cases m <;> simp [ReadsSignal, colorSignal, number, shape, Marker.shape]

theorem turnSignal_reads (o : Operand) : ReadsSignal Γ turnSignal (fun k => k = .number ∨ k = .lane) o := by
  rcases o with v | m
  · cases v with
    | term t => exact readsSignal_term rfl (.inl rfl) (by simp)
    | lane l =>
      refine ⟨.inr rfl, fun h => ?_⟩
      exact h.numbers l.turn (by simp [Value.numbers, Lane.terms])
    | point | line | area | object => simp [ReadsSignal, turnSignal, number, shape, Value.shape, TrafficObject.shape]
  · cases m <;> simp [ReadsSignal, turnSignal, number, shape, Marker.shape]

theorem color_refused {e : ApplyError} (h : o.color = .error e) : o.shape ≠ .color := by
  intro hshape
  rcases o with v | m
  · cases v with
    | term t =>
      rcases ht : t.sort with _ | _ | _ <;> simp [shape, Value.shape, Term.shape, ht] at hshape
    | point | line | area | lane | object => cases hshape
  · cases m with
    | color c => cases h
    | direction d => cases hshape

theorem direction_refused {e : ApplyError} (h : o.direction = .error e) : o.shape ≠ .direction := by
  intro hshape
  rcases o with v | m
  · cases v with
    | term t =>
      rcases ht : t.sort with _ | _ | _ <;> simp [shape, Value.shape, Term.shape, ht] at hshape
    | point | line | area | lane | object => cases hshape
  · cases m with
    | color c => cases hshape
    | direction d => cases h

end Operand

/-! ## Results of operators -/

namespace Operator

open Operand

/-- The result of an operator is as the table says: a term of the right kind for operands that it
lists, an error for all others. -/
def Judged (Γ : Signature) (op : Operator) (args : List Operand) : Except ApplyError Term → Prop
  | .ok t => op.Takes (args.map shape) ∧ t.Fits Γ ∧ t.shape = op.yields
  | .error _ => ¬ op.Takes (args.map shape)

variable {op : Operator} {args : List Operand} {a b : Operand} {t : Term} {names : NameSupply}

theorem Judged.formula (htakes : op.Takes (args.map shape)) (hyields : op.yields = .bool) (h : t.FitsFormula Γ) :
    Judged Γ op args (.ok t) := ⟨htakes, h.1, (if_pos h.2).trans hyields.symm⟩

theorem Judged.number (htakes : op.Takes (args.map shape)) (hyields : op.yields = .number) (h : t.FitsNumber Γ) :
    Judged Γ op args (.ok t) := ⟨htakes, h.1, (if_neg h.2).trans hyields.symm⟩

theorem judged_junction {j : Junction} (htakes : ∀ ks, op.Takes ks ↔ ks ≠ [] ∧ ∀ k ∈ ks, k = .bool)
    (hyields : op.yields = .bool) (hne : args ≠ []) (hargs : ∀ o ∈ args, o.Fits Γ) :
    Judged Γ op args (do return Term.junction j (← args.mapM boolean)) := by
  rcases hts : args.mapM boolean with e | ts
  · show ¬ op.Takes (args.map shape)
    rw [htakes, List.forall_mem_map]
    rintro ⟨-, hall⟩
    obtain ⟨o, ho, hshape⟩ := mapM_boolean_refused hts
    exact hshape (hall o ho)
  · obtain ⟨rfl, hsort⟩ := mapM_boolean_eq_ok hts
    refine .formula ((htakes _).2 ⟨by simpa using hne, ?_⟩) hyields (Term.fitsFormula_junction.2 fun t ht => ?_)
    · rw [List.map_map, List.forall_mem_map]
      exact fun t ht => shape_formula (hsort t ht)
    · exact ⟨fits_term.1 (hargs _ (List.mem_map_of_mem ht)), hsort t ht⟩

theorem judged_not (ha : a.Fits Γ) : Judged Γ .not [a] (do return Term.not (← a.boolean)) := by
  rcases hx : a.boolean with e | x
  · show ¬ [a.shape] = [Kind.bool]
    simpa using boolean_refused hx
  · obtain ⟨rfl, hsort⟩ := boolean_eq_ok hx
    refine .formula ?_ rfl ⟨⟨fits_term.1 ha, hsort⟩, rfl⟩
    show [(term x).shape] = [Kind.bool]
    rw [shape_formula hsort]

theorem judged_unary {f : Term → Term} (htakes : ∀ k, op.Takes [k] ↔ k = .number) (hyields : op.yields = .number)
    (hf : ∀ x, x.FitsNumber Γ → (f x).FitsNumber Γ) (ha : a.Fits Γ) : Judged Γ op [a] (do return f (← a.number)) := by
  rcases hx : a.number with e | x
  · exact fun h => number_refused hx ((htakes _).1 h)
  · obtain ⟨rfl, hsort⟩ := number_eq_ok hx
    exact .number ((htakes _).2 (shape_number hsort)) hyields (hf x ⟨fits_term.1 ha, hsort⟩)

theorem judged_equation {f : Term → Term}
    (htakes : ∀ k l, op.Takes [k, l] ↔ k = .bool ∧ l = .bool ∨ k = .number ∧ l = .number)
    (hyields : op.yields = .bool) (hf : ∀ x, x.FitsFormula Γ → (f x).FitsFormula Γ) (ha : a.Fits Γ) (hb : b.Fits Γ) :
    Judged Γ op [a, b] (do let (x, y) ← a.comparable b; return f (.eq x y)) := by
  rcases hxy : a.comparable b with e | ⟨x, y⟩
  · exact fun h => comparable_refused hxy ((htakes _ _).1 h)
  · obtain ⟨rfl, rfl, hsorts⟩ := comparable_eq_ok hxy
    refine .formula ((htakes _ _).2 ?_) hyields (hf _ ⟨⟨fits_term.1 ha, fits_term.1 hb, hsorts⟩, rfl⟩)
    by_cases hx : x.sort = .bool
    · exact .inl ⟨shape_formula hx, shape_formula (hsorts.1 hx)⟩
    · exact .inr ⟨shape_number hx, shape_number fun hy => hx (hsorts.2 hy)⟩

theorem judged_numbers {f : Term → Term → Term} (htakes : ∀ k l, op.Takes [k, l] ↔ k = .number ∧ l = .number)
    (hf : ∀ x y, x.FitsNumber Γ → y.FitsNumber Γ → (f x y).Fits Γ ∧ (f x y).shape = op.yields)
    (ha : a.Fits Γ) (hb : b.Fits Γ) : Judged Γ op [a, b] (numbers a b f) := by
  unfold numbers
  rcases hx : a.number with e | x
  · exact fun h => number_refused hx ((htakes _ _).1 h).1
  rcases hy : b.number with e | y
  · exact fun h => number_refused hy ((htakes _ _).1 h).2
  obtain ⟨rfl, hxs⟩ := number_eq_ok hx
  obtain ⟨rfl, hys⟩ := number_eq_ok hy
  exact ⟨(htakes _ _).2 ⟨shape_number hxs, shape_number hys⟩, hf x y ⟨fits_term.1 ha, hxs⟩ ⟨fits_term.1 hb, hys⟩⟩

/-- A signal and a marker that it is compared with. -/
theorem judged_signal {μ : Type} {signal : Operand → Except ApplyError Term} {mark : Operand → Except ApplyError μ}
    {formula : Term → μ → Term} {P : Kind → Prop} {K : Kind}
    (htakes : ∀ k l, op.Takes [k, l] ↔ P k ∧ l = K) (hyields : op.yields = .bool)
    (hsignal : ReadsSignal Γ signal P a) (hmark : ∀ m, mark b = .ok m → b.shape = K)
    (hrefused : ∀ e, mark b = .error e → b.shape ≠ K)
    (hformula : ∀ m x, x.FitsNumber Γ → (formula x m).FitsFormula Γ) (ha : a.Fits Γ) :
    Judged Γ op [a, b] (do let x ← signal a; let m ← mark b; return formula x m) := by
  unfold ReadsSignal at hsignal
  rcases hx : signal a with e | x
  · rw [hx] at hsignal
    exact fun h => hsignal ((htakes _ _).1 h).1
  rw [hx] at hsignal
  rcases hm : mark b with e | m
  · exact fun h => hrefused e hm ((htakes _ _).1 h).2
  exact .formula ((htakes _ _).2 ⟨hsignal.1, hmark m hm⟩) hyields (hformula m x (hsignal.2 ha))

theorem judged_spatial {result : Option (Naming Term)} {err : ApplyError} (hyields : op.yields = .bool)
    (hsome : ∀ naming, result = some naming → op.Takes (args.map shape) ∧ (naming.run names).1.FitsFormula Γ)
    (hnone : result = none → ¬ op.Takes (args.map shape)) :
    Judged Γ op args ((spatial result err).run.run names).1 := by
  rcases result with _ | naming
  · exact hnone rfl
  · obtain ⟨htakes, hfits⟩ := hsome naming rfl
    exact .formula htakes hyields hfits

theorem judged_figures {relation : Figure → Figure → Option (Naming Term)} {err : Figure → Figure → ApplyError}
    (hyields : op.yields = .bool) (hfigures : ∀ k l, op.Takes [k, l] → k.IsFigure ∧ l.IsFigure)
    (htakes : ∀ f g : Figure, op.Takes [f.shape, g.shape] ↔ (relation f g).isSome = true)
    (hfits : ∀ {f g : Figure} {naming : Naming Term}, relation f g = some naming → AllFit Γ f.terms →
      AllFit Γ g.terms → (naming.run names).1.FitsFormula Γ) (ha : a.Fits Γ) (hb : b.Fits Γ) :
    Judged Γ op [a, b] ((match a.figures b with
      | .ok (f, g) => spatial (relation f g) (err f g)
      | .error e => throw e : Applying Term).run.run names).1 := by
  unfold figures
  rcases figure_cases (Γ := Γ) a with ⟨f, hf, hfs, hff⟩ | ⟨hf, hfs⟩
  · rcases figure_cases (Γ := Γ) b with ⟨g, hg, hgs, hgf⟩ | ⟨hg, hgs⟩
    · rw [hf, hg]
      refine judged_spatial hyields (fun naming hn => ⟨?_, hfits hn (hff ha) (hgf hb)⟩) fun hn => ?_
      · rw [List.map_cons, List.map_singleton, hfs, hgs, htakes, hn]
        rfl
      · rw [List.map_cons, List.map_singleton, hfs, hgs, htakes, hn]
        exact Bool.false_ne_true
    · rw [hf, hg]
      exact fun h => hgs (hfigures _ _ h).2
  · rw [hf]
    exact fun h => hfs (hfigures _ _ h).1

theorem encounter_fits {k : Encounter} {ego obstacle : TrafficObject} {naming : Naming Term}
    (h : k.formula ego obstacle = some naming) (he : AllFit Γ ego.numbers) (ho : AllFit Γ obstacle.numbers) :
    (naming.run names).1.FitsFormula Γ := by
  rcases hm : ego.motion with _ | m
  · simp [Encounter.formula, hm] at h
  rcases hn : obstacle.motion with _ | n
  · simp [Encounter.formula, hm, hn] at h
  simp only [Encounter.formula, hm, hn, Option.some.injEq] at h
  subst h
  simp only [TrafficObject.numbers, hm, hn, Option.elim_some, Motion.terms, allFit_append, allFit_cons] at he ho
  obtain ⟨⟨⟨⟨⟨hep, hes⟩, -, -, hpath⟩, -⟩, -⟩, -⟩ := he
  obtain ⟨⟨⟨⟨⟨hop, hos⟩, hv, -, hpath'⟩, -⟩, -⟩, -⟩ := ho
  have htiming := k.timing_fits (allFit_append.2 ⟨hep, hes⟩) (allFit_append.2 ⟨hop, hos⟩) hv
  have hpaths : ((meets m.trajectory.contains n.trajectory.contains).run names).1.FitsFormula Γ :=
    meets_fits (Line.setFits hpath) (Line.setFits hpath')
  exact Term.fitsFormula_junction.2 (List.forall_mem_cons.2 ⟨htiming, List.forall_mem_singleton.2 hpaths⟩)

theorem encounter_isSome {k : Encounter} {ego obstacle : TrafficObject} :
    (k.formula ego obstacle).isSome = true ↔ ego.motion.isSome = true ∧ obstacle.motion.isSome = true := by
  unfold Encounter.formula
  rcases ego.motion with _ | m <;> rcases obstacle.motion with _ | n <;> simp

theorem judged_encounter {k : Encounter} (hyields : op.yields = .bool)
    (htakes : ∀ i j, op.Takes [i, j] ↔ ∃ c d, i = .object true c ∧ j = .object true d)
    (ha : a.Fits Γ) (hb : b.Fits Γ) : Judged Γ op [a, b] ((encounter k a b).run.run names).1 := by
  unfold encounter objects
  rcases object_cases (Γ := Γ) a with ⟨e, he, hes, hef⟩ | ⟨he, hes⟩
  · rcases object_cases (Γ := Γ) b with ⟨o, ho, hos, hof⟩ | ⟨ho, hos⟩
    · rw [he, ho]
      have hmoving : op.Takes ([a, b].map shape) ↔ (k.formula e o).isSome = true := by
        rw [List.map_cons, List.map_singleton, hes, hos, htakes, encounter_isSome]
        simp [TrafficObject.shape]
      refine judged_spatial hyields (fun naming hn => ⟨?_, encounter_fits hn (hef ha) (hof hb)⟩) fun hn => ?_
      · rw [hmoving, hn]
        rfl
      · rw [hmoving, hn]
        exact Bool.false_ne_true
    · rw [he, ho]
      intro h
      obtain ⟨-, d, -, hd⟩ := (htakes _ _).1 h
      exact hos _ _ hd
  · rw [he]
    intro h
    obtain ⟨c, -, hc, -⟩ := (htakes _ _).1 h
    exact hes _ _ hc

/-! ## All operators -/

theorem fits_compare {c : Comparison} {x y : Term} (hx : x.FitsNumber Γ) (hy : y.FitsNumber Γ) :
    (Term.compare c x y).Fits Γ ∧ (Term.compare c x y).shape = .bool := ⟨⟨hx, hy⟩, rfl⟩

theorem fits_arith {f : Arith} {x y : Term} (hx : x.FitsNumber Γ) (hy : y.FitsNumber Γ) :
    (Term.arith f x y).Fits Γ ∧ (Term.arith f x y).shape = .number := ⟨⟨hx, hy⟩, if_neg (Term.arith_sort_ne_bool f x y)⟩

/-- An operator keeps to its line of the table. -/
theorem apply_judged (op : Operator) (hargs : ∀ o ∈ args, o.Fits Γ) (names : NameSupply) :
    Judged Γ op args ((op.apply args).run.run names).1 := by
  by_cases hn : op.arity.accepts args.length = true
  case neg =>
    rw [apply, if_neg hn]
    intro h
    exact hn (by simpa using h.accepts)
  rw [apply, if_pos hn]
  have hpair : args.length = 2 → ∃ a b, args = [a, b] ∧ a.Fits Γ ∧ b.Fits Γ := by
    intro hlen
    obtain ⟨a, b, rfl⟩ := List.length_eq_two.1 hlen
    exact ⟨a, b, rfl, hargs a (by simp), hargs b (by simp)⟩
  have hsingle : args.length = 1 → ∃ a, args = [a] ∧ a.Fits Γ := by
    intro hlen
    obtain ⟨a, rfl⟩ := List.length_eq_one_iff.1 hlen
    exact ⟨a, rfl, hargs a (by simp)⟩
  cases op with
  | and | or =>
    refine judged_junction (fun _ => Iff.rfl) rfl ?_ hargs
    rintro rfl
    cases hn
  | not =>
    obtain ⟨a, rfl, ha⟩ := hsingle (length_of_accepts hn)
    exact judged_not ha
  | eq =>
    obtain ⟨a, b, rfl, ha, hb⟩ := hpair (length_of_accepts hn)
    exact judged_equation (f := id) (by simp [Takes]) rfl (fun _ hx => hx) ha hb
  | ne =>
    obtain ⟨a, b, rfl, ha, hb⟩ := hpair (length_of_accepts hn)
    exact judged_equation (f := .not) (by simp [Takes]) rfl (fun _ hx => ⟨hx, rfl⟩) ha hb
  | lt | le | gt | ge =>
    obtain ⟨a, b, rfl, ha, hb⟩ := hpair (length_of_accepts hn)
    exact judged_numbers (by simp [Takes]) (fun _ _ => fits_compare) ha hb
  | add | mul =>
    obtain ⟨a, b, rfl, ha, hb⟩ := hpair (length_of_accepts hn)
    exact judged_numbers (by simp [Takes]) (fun _ _ => fits_arith) ha hb
  | div =>
    obtain ⟨a, b, rfl, ha, hb⟩ := hpair (length_of_accepts hn)
    exact judged_numbers (by simp [Takes]) (fun _ _ hx hy => ⟨⟨hx, hy⟩, rfl⟩) ha hb
  | sub =>
    have hlen : args.length = 1 ∨ args.length = 2 := by simpa [arity, Arity.accepts] using hn
    rcases hlen with hlen | hlen
    · obtain ⟨a, rfl, ha⟩ := hsingle hlen
      exact judged_unary (by simp [Takes]) rfl (fun _ hx => Term.fitsNumber_neg.2 hx) ha
    · obtain ⟨a, b, rfl, ha, hb⟩ := hpair hlen
      exact judged_numbers (by simp [Takes]) (fun _ _ => fits_arith) ha hb
  | abs =>
    obtain ⟨a, rfl, ha⟩ := hsingle (length_of_accepts hn)
    exact judged_unary (by simp [Takes]) rfl (fun _ hx => hx.abs) ha
  | inside =>
    obtain ⟨a, b, rfl, ha, hb⟩ := hpair (length_of_accepts hn)
    refine judged_figures rfl (fun k l h => ?_) (fun f g => ?_) Figure.containment_fits ha hb
    · simp only [Takes, List.mem_cons, List.cons.injEq, List.not_mem_nil, or_false, and_true] at h
      rcases h with ⟨rfl, rfl⟩ | ⟨rfl, rfl⟩ | ⟨rfl, rfl⟩ | ⟨rfl, rfl⟩ <;> exact ⟨trivial, trivial⟩
    · cases f <;> cases g <;> simp [Takes, Figure.shape, Figure.containment]
  | cross =>
    obtain ⟨a, b, rfl, ha, hb⟩ := hpair (length_of_accepts hn)
    refine judged_figures rfl (fun k l h => ?_) (fun f g => ?_) Figure.crossing_fits ha hb
    · simp only [Takes, List.mem_cons, List.cons.injEq, List.not_mem_nil, or_false, and_true] at h
      rcases h with ⟨rfl, rfl⟩ | ⟨rfl, rfl⟩ | ⟨rfl, rfl⟩ | ⟨rfl, rfl⟩ <;> exact ⟨trivial, trivial⟩
    · cases f <;> cases g <;> simp [Takes, Figure.shape, Figure.crossing]
  | isColor =>
    obtain ⟨a, b, rfl, ha, hb⟩ := hpair (length_of_accepts hn)
    refine judged_signal (K := .color) (fun k l => ?_) rfl (colorSignal_reads a) (fun c hc => ?_)
      (fun _ => color_refused) (fun c _ => c.formula_fits) ha
    · simp [Takes, or_and_right, exists_and_right]
    · rw [color_eq_ok hc]
      rfl
  | isDirection =>
    obtain ⟨a, b, rfl, ha, hb⟩ := hpair (length_of_accepts hn)
    refine judged_signal (K := .direction) (fun k l => ?_) rfl (turnSignal_reads a) (fun d hd => ?_)
      (fun _ => direction_refused) (fun d _ => d.formula_fits) ha
    · simp [Takes, or_and_right]
    · rw [direction_eq_ok hd]
      rfl
  | stCross | stAbove | stBelow =>
    obtain ⟨a, b, rfl, ha, hb⟩ := hpair (length_of_accepts hn)
    exact judged_encounter rfl (by simp [Takes]) ha hb

end Operator

end RoadPolicy
