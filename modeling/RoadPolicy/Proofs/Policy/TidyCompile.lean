/-
Compiling keeps a registry tidy. The figures and objects of a registry keep to one discipline, which
does not change; its terms and formulas keep to another, which allows more with every name taken.
Whatever is compiled or bound for the code policy keeps to the two disciplines as well.
-/
import RoadPolicy.Proofs.Policy.BindingParts
import RoadPolicy.Proofs.Policy.CompileMeaning
import RoadPolicy.Proofs.Policy.RegistryContents
import RoadPolicy.Proofs.Policy.TakenNames

namespace RoadPolicy

/-- A discipline for figures and one for terms, by how many names have been taken. -/
structure Disciplines (F : Discipline) (D : Nat → Discipline) : Prop where
  figures : ∀ n, F.Below (D n)
  fresh : ∀ n, D (n + 1) [] (Point.binders (NameSupply.nextPoint ⟨n⟩))
  mono : ∀ {n m outer binders}, n ≤ m → D n outer binders → D m outer binders

/-- The figures of a value keep to a discipline, and its terms to another. -/
structure Value.Tidy (F D : Discipline) (v : Value) : Prop where
  numbers : ∀ t ∈ v.numbers, t.Tidy F []
  terms : ∀ t ∈ v.terms, t.Tidy D []

structure Operand.Tidy (F D : Discipline) (o : Operand) : Prop where
  numbers : ∀ t ∈ o.numbers, t.Tidy F []
  terms : ∀ t ∈ o.terms, t.Tidy D []

/-- All formulas and values of a registry are tidy. -/
structure Registry.Tidy (F D : Discipline) (r : Registry) : Prop where
  formulas : ∀ space, ∀ t ∈ r.formulas space, t.Tidy D []
  values : ∀ space name v, r.lookupIn space name = some v → v.Tidy F D

section

variable {F D D' : Discipline}

theorem Value.tidy_term {t : Term} : (Value.term t).Tidy F D ↔ t.Tidy D [] := by
  constructor
  · intro h
    exact h.terms t (List.mem_singleton_self t)
  · intro h
    exact ⟨List.forall_mem_nil _, List.forall_mem_singleton.2 h⟩

theorem Operand.tidy_term {t : Term} : (Operand.term t).Tidy F D ↔ t.Tidy D [] := by
  constructor
  · intro h
    exact h.terms t (List.mem_singleton_self t)
  · intro h
    exact ⟨List.forall_mem_nil _, List.forall_mem_singleton.2 h⟩

theorem Value.Tidy.imp {v : Value} (hD : ∀ outer binders, D outer binders → D' outer binders) (h : v.Tidy F D) :
    v.Tidy F D' := ⟨h.numbers, fun t ht => (h.terms t ht).imp hD⟩

theorem Operand.Tidy.imp {o : Operand} (hD : ∀ outer binders, D outer binders → D' outer binders) (h : o.Tidy F D) :
    o.Tidy F D' := ⟨h.numbers, fun t ht => (h.terms t ht).imp hD⟩

end

namespace Registry

variable {F D D' : Discipline} {r : Registry}

theorem Tidy.imp (hD : ∀ outer binders, D outer binders → D' outer binders) (h : r.Tidy F D) : r.Tidy F D' :=
  ⟨fun space t ht => (h.formulas space t ht).imp hD, fun space name v hv => (h.values space name v hv).imp hD⟩

theorem tidy_empty : Registry.empty.Tidy F D := by
  constructor
  · intro space t ht
    cases space <;> cases ht
  · intro space name v hv
    cases space <;> cases hv

theorem Tidy.define (h : r.Tidy F D) (space : Space) (name : String) {v : Value} (hv : v.Tidy F D) :
    (r.define space name v).Tidy F D := by
  refine ⟨fun space' t ht => h.formulas space' t (by simpa using ht), fun space' other w hw => ?_⟩
  rw [lookupIn_define] at hw
  split at hw
  · cases hw
    exact hv
  · exact h.values space' other w hw

theorem Tidy.defineAll (h : r.Tidy F D) (space : Space) {bindings : List (String × Value)}
    (hb : ∀ b ∈ bindings, b.2.Tidy F D) : (r.defineAll space bindings).Tidy F D := by
  induction bindings generalizing r with
  | nil => exact h
  | cons b bindings ih =>
    rw [List.forall_mem_cons] at hb
    exact ih (h.define space b.1 hb.1) hb.2

theorem Tidy.assertAll (h : r.Tidy F D) (space : Space) {ts : List Term} (hts : ∀ t ∈ ts, t.Tidy D []) :
    (r.assertAll space ts).Tidy F D := by
  refine ⟨fun space' t ht => ?_, fun space' name v hv => h.values space' name v (by simpa using hv)⟩
  rw [formulas_assertAll] at ht
  rcases List.mem_append.1 ht with ht | ht
  · exact h.formulas space' t ht
  · split at ht
    · exact hts t ht
    · cases ht

theorem Tidy.lookup (h : r.Tidy F D) {name : String} {v : Value} (hv : r.lookup name = some v) : v.Tidy F D := by
  obtain ⟨space, -, hspace⟩ := List.exists_of_findSome?_eq_some hv
  exact h.values space name v hspace

end Registry

/-! ## Operators -/

variable {F : Discipline} {D : Nat → Discipline} {registry : Registry} {names names' : NameSupply}

/-- A computation never gives names back, and what it returns is tidy. -/
def KeepsTidy {ε α : Type} (D : Nat → Discipline) (IsTidy : Discipline → α → Prop) (x : ExceptT ε Naming α)
    (names : NameSupply) : Prop :=
  ∀ r names', x.run.run names = (r, names') →
    names.issued ≤ names'.issued ∧ ∀ a, r = .ok a → IsTidy (D names'.issued) a

section

variable {ε α β : Type} {IsTidy : Discipline → α → Prop} {IsTidy' : Discipline → β → Prop}

theorem keepsTidy_pure {a : α} (h : IsTidy (D names.issued) a) :
    KeepsTidy D IsTidy (pure a : ExceptT ε Naming α) names := by
  rintro r names' ⟨⟩
  refine ⟨le_refl _, ?_⟩
  rintro a ⟨⟩
  exact h

theorem keepsTidy_throw {e : ε} : KeepsTidy D IsTidy (throw e : ExceptT ε Naming α) names := by
  rintro r names' ⟨⟩
  refine ⟨le_refl _, ?_⟩
  rintro a ⟨⟩

theorem KeepsTidy.bind {x : ExceptT ε Naming α} {f : α → ExceptT ε Naming β} (hx : KeepsTidy D IsTidy x names)
    (hf : ∀ a names', names.issued ≤ names'.issued → IsTidy (D names'.issued) a → KeepsTidy D IsTidy' (f a) names') :
    KeepsTidy D IsTidy' (x >>= f) names := by
  intro r names' h
  rw [run_bind] at h
  rcases hrun : x.run.run names with ⟨e | a, names₁⟩
  · rw [hrun] at h
    cases h
    refine ⟨(hx _ _ hrun).1, ?_⟩
    rintro b ⟨⟩
  · rw [hrun] at h
    obtain ⟨hle, ha⟩ := hx _ _ hrun
    obtain ⟨hle', hb⟩ := hf a names₁ hle (ha a rfl) r names' h
    exact ⟨hle.trans hle', hb⟩

end

/-! ## Operators and nodes -/

theorem Operator.keepsTidy_apply (hD : Disciplines F D) (op : Operator) {args : List Operand}
    (hargs : ∀ o ∈ args, o.Tidy F (D names.issued)) :
    KeepsTidy D (fun D t => t.Tidy D []) (op.apply args) names := by
  have hterms : ∀ t ∈ args.flatMap Operand.terms, t.Tidy (D names.issued) [] := by
    intro t ht
    obtain ⟨o, ho, ht⟩ := List.mem_flatMap.1 ht
    exact (hargs o ho).terms t ht
  have hnumbers : ∀ t ∈ args.flatMap Operand.numbers, t.Tidy F [] := by
    intro t ht
    obtain ⟨o, ho, ht⟩ := List.mem_flatMap.1 ht
    exact (hargs o ho).numbers t ht
  intro r names' hrun
  have hacts := op.acts args names
  rw [hrun] at hacts
  cases hacts with
  | refused e =>
    refine ⟨le_refl _, ?_⟩
    rintro t ⟨⟩
  | combined t _ ht =>
    refine ⟨le_refl _, ?_⟩
    rintro t ⟨⟩
    exact ht _ _ hterms
  | related t _ ht =>
    refine ⟨Nat.le_succ _, ?_⟩
    rintro t ⟨⟩
    exact ht.tidy hnumbers (hD.figures _) (hD.fresh _)

theorem Literal.term_tidy {l : Literal} {t : Term} (h : l.term? = some t) {D : Discipline} : t.Tidy D [] := by
  cases l with
  | int digits =>
    obtain ⟨n, -, rfl⟩ := Option.map_eq_some_iff.1 h
    trivial
  | decimal digits =>
    obtain ⟨q, -, rfl⟩ := Option.map_eq_some_iff.1 h
    trivial
  | bool b =>
    cases h
    trivial

theorem Head.keepsTidy_operand (hD : Disciplines F D) (hr : registry.Tidy F (D names.issued)) (head : Head)
    (span : Span) {args : List Operand} (hargs : ∀ o ∈ args, o.Tidy F (D names.issued)) :
    KeepsTidy D (Operand.Tidy F) (head.operand registry span args) names := by
  cases head with
  | literal l =>
    rw [operand]
    rcases ht : l.term? with _ | t
    · exact keepsTidy_throw
    · exact keepsTidy_pure (Operand.tidy_term.2 (Literal.term_tidy ht))
  | marker m => exact keepsTidy_pure ⟨List.forall_mem_nil _, List.forall_mem_nil _⟩
  | symbol name =>
    rw [operand]
    rcases hv : registry.lookup name with _ | v
    · exact keepsTidy_throw
    · exact keepsTidy_pure ⟨(hr.lookup hv).numbers, (hr.lookup hv).terms⟩
  | operator op =>
    intro r names' hrun
    rw [Tree.run_operator] at hrun
    rcases happly : (op.apply args).run.run names with ⟨cause | t, names₁⟩
    · rw [happly] at hrun
      cases hrun
      refine ⟨(op.keepsTidy_apply hD hargs _ _ happly).1, ?_⟩
      rintro o ⟨⟩
    · rw [happly] at hrun
      cases hrun
      obtain ⟨hle, ht⟩ := op.keepsTidy_apply hD hargs _ _ happly
      refine ⟨hle, ?_⟩
      rintro o ⟨⟩
      exact Operand.tidy_term.2 (ht t rfl)

/-! ## Trees -/

namespace Tree

theorem keepsTidy_lowerAll (hD : Disciplines F D) {ts : List Tree}
    (hts : ∀ t ∈ ts, ∀ names, registry.Tidy F (D names.issued) → KeepsTidy D (Operand.Tidy F) (t.lower registry) names)
    (hr : registry.Tidy F (D names.issued)) :
    KeepsTidy D (fun D os => ∀ o ∈ os, o.Tidy F D) (lowerAll registry ts) names := by
  induction ts generalizing names with
  | nil => exact keepsTidy_pure (List.forall_mem_nil _)
  | cons t ts ih =>
    rw [List.forall_mem_cons] at hts
    refine (hts.1 names hr).bind fun o names₁ hle ho => ?_
    refine (ih hts.2 (hr.imp fun _ _ => hD.mono hle)).bind fun os names₂ hle' hos => ?_
    exact keepsTidy_pure (List.forall_mem_cons.2 ⟨ho.imp fun _ _ => hD.mono hle', hos⟩)

theorem keepsTidy_lower (hD : Disciplines F D) (t : Tree) : ∀ names, registry.Tidy F (D names.issued) →
    KeepsTidy D (Operand.Tidy F) (t.lower registry) names := by
  induction t with
  | node id head span children ih =>
    intro names hr
    rw [lower]
    refine (keepsTidy_lowerAll hD ih hr).bind fun args names₁ hle hargs => ?_
    exact head.keepsTidy_operand hD (hr.imp fun _ _ => hD.mono hle) span hargs

end Tree

/-! ## Sources -/

/-- Compiling is reading, lowering the tree that was read and simplifying its formula. -/
theorem run_compile_tree {source : String} {e : Expression} (h : parse registry.resolves source = .ok e.arena)
    (names : NameSupply) :
    (compile registry source).run.run names =
      match ((e.tree 0).lower registry).run.run names with
      | (.ok o, names') =>
        (match formulaOf (e.tree 0).span (some o) with
          | .ok t => .ok t.simplify
          | .error err => .error (.lower err), names')
      | (.error err, names') => (.error (.lower err), names') := by
  rw [run_compile h, lower_arena]
  rcases ((e.tree 0).lower registry).run.run names with ⟨err | o, names'⟩
  · rfl
  · dsimp only
    rcases formulaOf (e.tree 0).span (some o) with err | t <;> rfl

theorem run_compile_error {source : String} {err : ParseError} (h : parse registry.resolves source = .error err)
    (names : NameSupply) : (compile registry source).run.run names = (.error (.parse err), names) := by
  rw [compile, h]
  rfl

theorem keepsTidy_compile (hD : Disciplines F D) (hr : registry.Tidy F (D names.issued)) (source : String) :
    KeepsTidy D (fun D t => t.Tidy D []) (compile registry source) names := by
  intro r names' hrun
  rcases hparse : parse registry.resolves source with err | a
  · rw [run_compile_error hparse] at hrun
    cases hrun
    refine ⟨le_refl _, ?_⟩
    rintro t ⟨⟩
  obtain ⟨e, -, rfl⟩ := parseTokens_eq_ok_iff.1 hparse
  rw [run_compile_tree hparse] at hrun
  rcases hlower : ((e.tree 0).lower registry).run.run names with ⟨err | o, names₁⟩
  · rw [hlower] at hrun
    cases hrun
    refine ⟨((e.tree 0).keepsTidy_lower hD names hr _ _ hlower).1, ?_⟩
    rintro t ⟨⟩
  rw [hlower] at hrun
  obtain ⟨hle, ho⟩ := (e.tree 0).keepsTidy_lower hD names hr _ _ hlower
  obtain ⟨rfl, rfl⟩ := Prod.mk.inj hrun
  refine ⟨hle, fun t ht => ?_⟩
  rcases hform : formulaOf (e.tree 0).span (some o) with err | u
  · rw [hform] at ht
    cases ht
  · rw [hform] at ht
    cases ht
    obtain ⟨rfl, -⟩ := formulaOf_eq_ok hform
    exact (Operand.tidy_term.1 (ho _ rfl)).simplify

/-! ## Bindings -/

/-- Relations over the points of consecutive names, from one number to another. -/
inductive Related (ts : List Term) : Nat → List Term → Nat → Prop
  | nil (n : Nat) : Related ts n [] n
  | cons {n m : Nat} {t : Term} {us : List Term} (h : Relation ts ⟨n⟩ t) : Related ts (n + 1) us m →
    Related ts n (t :: us) m

namespace Related

variable {ts us vs : List Term} {n m l : Nat}

theorem append (h : Related ts n us m) (h' : Related ts m vs l) : Related ts n (us ++ vs) l := by
  induction h with
  | nil => exact h'
  | cons hrel _ ih => exact .cons hrel (ih h')

theorem le (h : Related ts n us m) : n ≤ m := by
  induction h with
  | nil => exact le_refl _
  | cons _ _ ih => omega

theorem tidy (hD : Disciplines F D) (hts : ∀ t ∈ ts, t.Tidy F []) (h : Related ts n us m) :
    ∀ u ∈ us, u.Tidy (D m) [] := by
  induction h with
  | nil => exact List.forall_mem_nil _
  | @cons n m t us hrel hrest ih =>
    refine List.forall_mem_cons.2 ⟨?_, ih⟩
    have ht : t.Tidy (D (n + 1)) [] := hrel.tidy hts (hD.figures _) (hD.fresh n)
    exact ht.imp fun _ _ => hD.mono hrest.le

end Related

theorem Relating.related {ts : List Term} {x : Naming Term} (h : Relating ts x) (names : NameSupply) :
    Related ts names.issued [(x.run names).1] (x.run names).2.issued := by
  obtain ⟨hrel, hnames⟩ := h names
  rw [hnames]
  exact .cons hrel (.nil _)

/-- The numbers that the objects and the road of a scenario are given by. -/
def Scenario.numbers (sc : Scenario) : List Term :=
  sc.objects.flatMap TrafficObject.numbers ++ Scenario.roadBoundary.terms

/-- The objects of a scenario keep to the discipline of figures, with all their terms. -/
def Scenario.Tidy (F : Discipline) (sc : Scenario) : Prop :=
  ∀ o ∈ sc.objects, ∀ t ∈ (Value.object o).terms, t.Tidy F []

namespace CodeBindings

variable {sc : Scenario}

theorem related_pathsMeet {ego ped : TrafficObject} (hego : ego ∈ sc.objects) (hped : ped ∈ sc.objects)
    (names : NameSupply) :
    Related sc.numbers names.issued ((pathsMeet ego ped).run names).1.toList
      ((pathsMeet ego ped).run names).2.issued := by
  unfold pathsMeet
  rcases hformula : Encounter.cross.formula ego ped with _ | x
  · exact .nil _
  · refine ((Encounter.relating_formula hformula).mono ?_).related names
    refine List.append_subset.2 ⟨fun t ht => ?_, fun t ht => ?_⟩
    · exact List.mem_append_left _ (List.mem_flatMap_of_mem hego ht)
    · exact List.mem_append_left _ (List.mem_flatMap_of_mem hped ht)

theorem boundary_subset {o : TrafficObject} (ho : o ∈ sc.objects) : o.boundary.terms ⊆ sc.numbers := by
  intro t ht
  refine List.mem_append_left _ (List.mem_flatMap_of_mem ho ?_)
  simp only [TrafficObject.boundary, Area.terms, TrafficObject.numbers, List.mem_append] at ht ⊢
  tauto

/-- At a crosswalk two or three names are taken, one after the other. -/
theorem related_atCrosswalk (sc : Scenario) (names : NameSupply) :
    (atCrosswalk sc).run names = (none, names) ∨
      ∃ ped ∈ sc.objects, ∃ cw ∈ sc.objects, ∃ onCrosswalk crossing onRoad names',
        (atCrosswalk sc).run names = (crosswalkWith sc.ego ped cw onCrosswalk crossing onRoad, names') ∧
        Related sc.numbers names.issued (onCrosswalk :: (crossing.toList ++ [onRoad])) names'.issued := by
  unfold atCrosswalk
  split
  · rename_i ped cw _ hped hcw
    have hped : ped ∈ sc.objects := List.mem_cons_of_mem _ (List.mem_of_find?_eq_some hped)
    have hcw : cw ∈ sc.objects := List.mem_cons_of_mem _ (List.mem_of_find?_eq_some hcw)
    refine .inr ⟨ped, hped, cw, hcw, _, _, _, _, run_crosswalk .., ?_⟩
    have hfirst := (relating_meets ped.boundary.contains_tidyFrom cw.boundary.contains_tidyFrom).mono
      (List.append_subset.2 ⟨boundary_subset hped, boundary_subset hcw⟩)
    have hlast := (relating_meets ped.boundary.contains_tidyFrom Scenario.roadBoundary.contains_tidyFrom).mono
      (List.append_subset.2 ⟨boundary_subset hped, List.subset_append_right _ _⟩)
    exact (hfirst.related _).append ((related_pathsMeet List.mem_cons_self hped _).append (hlast.related _))
  · exact .inl rfl

/-- The values and facts of bindings are tidy. -/
structure Tidy (F D : Discipline) (b : CodeBindings) : Prop where
  symbols : ∀ e ∈ b.symbols, e.2.Tidy F D
  facts : ∀ t ∈ b.facts, t.Tidy D []

section

variable {F D : Discipline} {a b : CodeBindings} {name : String} {v : Value} {t c : Term} {n : Int}

@[simp] theorem tidy_append : (a ++ b).Tidy F D ↔ a.Tidy F D ∧ b.Tidy F D := by
  constructor
  · rintro ⟨hs, hf⟩
    rw [symbols_append, List.forall_mem_append] at hs
    rw [facts_append, List.forall_mem_append] at hf
    exact ⟨⟨hs.1, hf.1⟩, ⟨hs.2, hf.2⟩⟩
  · rintro ⟨ha, hb⟩
    exact ⟨List.forall_mem_append.2 ⟨ha.symbols, hb.symbols⟩, List.forall_mem_append.2 ⟨ha.facts, hb.facts⟩⟩

@[simp] theorem tidy_none : none.Tidy F D := ⟨List.forall_mem_nil _, List.forall_mem_nil _⟩

@[simp] theorem tidy_bind : (bind name v).Tidy F D ↔ v.Tidy F D := by
  constructor
  · intro h
    exact h.symbols (name, v) List.mem_cons_self
  · intro h
    exact ⟨List.forall_mem_singleton.2 h, List.forall_mem_nil _⟩

@[simp] theorem tidy_bindTerm : (bindTerm name t).Tidy F D ↔ t.Tidy D [] := tidy_bind.trans Value.tidy_term

@[simp] theorem tidy_fixed : (fixed c t name).Tidy F D ↔ c.Tidy D [] ∧ t.Tidy D [] := by
  constructor
  · intro h
    exact h.facts _ List.mem_cons_self
  · intro h
    exact ⟨List.forall_mem_singleton.2 (Value.tidy_term.2 h.1), List.forall_mem_singleton.2 h⟩

@[simp] theorem tidy_param : (param name n).Tidy F D ↔ ('!' ∈ name.toList → name ∈ []) :=
  tidy_fixed.trans (and_iff_left trivial)

end

section

variable {F D : Discipline} (hD : F.Below D) (hsc : sc.Tidy F)

include hD hsc

theorem tidy_numbers {o : TrafficObject} (ho : o ∈ sc.objects) {t : Term} (ht : t ∈ o.numbers) : t.Tidy D [] :=
  (hsc o ho t (List.mem_append_left _ ht)).imp fun _ => hD _ _

theorem tidy_places {o : TrafficObject} (ho : o ∈ sc.objects) :
    (o.pos.l.Tidy D [] ∧ o.pos.s.Tidy D []) ∧ o.size.l.Tidy D [] ∧ o.size.s.Tidy D [] := by
  have h : ∀ t ∈ o.pos.terms ++ o.size.terms, t.Tidy D [] := fun t ht => tidy_numbers hD hsc ho (by
    simp only [TrafficObject.numbers, List.mem_append] at ht ⊢
    tauto)
  simp only [Point.terms, List.forall_mem_append, List.forall_mem_cons] at h
  exact ⟨⟨h.1.1, h.1.2.1⟩, h.2.1, h.2.2.1⟩

theorem tidy_always : (always sc).Tidy F D := by
  unfold always
  rcases hdest : sc.firstOf .destination with _ | dest
  · simp [destination]
  · have hdest := tidy_places hD hsc (List.mem_cons_of_mem _ (List.mem_of_find?_eq_some hdest))
    have hego := tidy_places hD hsc (List.mem_cons_self : sc.ego ∈ sc.objects)
    simp [destination, hdest, hego]

theorem tidy_crosswalkWith {ped cw : TrafficObject} (hped : ped ∈ sc.objects) (hcw : cw ∈ sc.objects)
    {onCrosswalk onRoad : Term} {crossing : Option Term}
    (hnew : ∀ t ∈ onCrosswalk :: (crossing.toList ++ [onRoad]), t.Tidy D []) :
    (crosswalkWith sc.ego ped cw onCrosswalk crossing onRoad).Tidy F D := by
  have hego := tidy_places hD hsc (List.mem_cons_self : sc.ego ∈ sc.objects)
  have hped := tidy_places hD hsc hped
  have hcw := tidy_places hD hsc hcw
  simp only [List.forall_mem_cons, List.forall_mem_append, Option.mem_toList] at hnew
  have hcrossing : (crossing.elim none (bindTerm "IsEmpty_26")).Tidy F D := by
    cases crossing with
    | none => exact tidy_none
    | some t => exact tidy_bindTerm.2 (hnew.2.1 t rfl)
  simp +decide [crosswalkWith, TrafficObject.endS, TrafficObject.startS, hego, hped, hcw, hnew, hcrossing]

theorem tidy_atLight : (atLight sc).Tidy F D := by
  unfold atLight
  split
  · rename_i light _ hlight
    have hmem : light ∈ sc.objects := List.mem_of_find?_eq_some hlight
    have hobject : (Value.object light).Tidy F D :=
      ⟨fun t ht => hsc light hmem t (List.mem_append_left _ ht), fun t ht => (hsc light hmem t ht).imp fun _ => hD _ _⟩
    have hlight := tidy_places hD hsc hmem
    have hego := tidy_places hD hsc (List.mem_cons_self : sc.ego ∈ sc.objects)
    unfold trafficLight
    rcases hm : sc.ego.motion with _ | m
    · simp [TrafficObject.endS, TrafficObject.startS, hego, hlight, hobject, hm]
    · have hvelocity : m.velocity.Tidy D [] :=
        tidy_numbers hD hsc List.mem_cons_self (by simp [TrafficObject.numbers, hm, Motion.terms])
      simp [TrafficObject.endS, TrafficObject.startS, hego, hlight, hobject, hm, hvelocity]
  · exact tidy_none

end

theorem tidy_scenarioNumbers {F : Discipline} (hsc : sc.Tidy F) : ∀ t ∈ sc.numbers, t.Tidy F [] := by
  refine List.forall_mem_append.2 ⟨fun t ht => ?_, ?_⟩
  · obtain ⟨o, ho, ht⟩ := List.mem_flatMap.1 ht
    exact hsc o ho t (List.mem_append_left _ ht)
  · simp +decide [Scenario.roadBoundary, Area.terms, Scenario.roadLeft, Scenario.roadRight]

theorem tidy_ofScenario (hD : Disciplines F D) (hsc : sc.Tidy F) (names : NameSupply) :
    names.issued ≤ ((ofScenario sc).run names).2.issued ∧
      ((ofScenario sc).run names).1.Tidy F (D ((ofScenario sc).run names).2.issued) := by
  have hparts : ∀ n, (always sc).Tidy F (D n) ∧ (atLight sc).Tidy F (D n) := fun n =>
    ⟨tidy_always (hD.figures n) hsc, tidy_atLight (hD.figures n) hsc⟩
  rw [run_ofScenario]
  rcases related_atCrosswalk sc names with h | ⟨ped, hped, cw, hcw, onCrosswalk, crossing, onRoad, names', h, hnew⟩
  · rw [h]
    exact ⟨le_refl _, tidy_append.2 ⟨tidy_append.2 ⟨(hparts _).1, tidy_none⟩, (hparts _).2⟩⟩
  · rw [h]
    have hcrosswalk := tidy_crosswalkWith (hD.figures _) hsc hped hcw (hnew.tidy hD (tidy_scenarioNumbers hsc))
    exact ⟨hnew.le, tidy_append.2 ⟨tidy_append.2 ⟨(hparts _).1, hcrosswalk⟩, (hparts _).2⟩⟩

end CodeBindings

end RoadPolicy
