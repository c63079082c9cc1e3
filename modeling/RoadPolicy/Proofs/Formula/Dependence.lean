/-
What a term depends on. A name is free if it has an occurrence around which no quantifier binds it,
and the value of a term, its failure and its meaning depend on the free names only. Evaluation looks at
the assignment for one constant after the other and otherwise combines scalars; so whatever relates
what two assignments give to the free names, and is kept when computations follow one another, relates
the two evaluations.
-/
import Mathlib
import RoadPolicy.Proofs.Formula.FreeConstants
import RoadPolicy.Proofs.Formula.IntegerEval

namespace RoadPolicy

namespace Term

/-! ## Occurrences -/

/-- The operands of a term. -/
def operands : Term → List Term
  | const _ _ => []
  | bool _ => []
  | int _ => []
  | real _ => []
  | arith _ a b => [a, b]
  | div a b => [a, b]
  | neg a => [a]
  | ite c a b => [c, a, b]
  | eq a b => [a, b]
  | compare _ a b => [a, b]
  | junction _ ts => ts
  | not a => [a]
  | implies a b => [a, b]
  | quantified _ _ body => [body]

/-- A part of a term at some place, with the names that are bound there: those of all quantifiers
around it, the outermost first. -/
inductive PartUnder : Term → List String → Term → Prop
  | whole (t : Term) : PartUnder t [] t
  | operand {t u part : Term} {scope : List String} (hu : u ∈ t.operands) (h : PartUnder u scope part) :
    PartUnder t (t.ownBinders.map (·.name) ++ scope) part

/-- The name has an occurrence around which no quantifier binds it. -/
def OccursFree (t : Term) (name : String) : Prop :=
  ∃ scope s, t.PartUnder scope (const name s) ∧ name ∉ scope

/-- Induction from the operands to the term. -/
theorem operands_induction {motive : Term → Prop} (step : ∀ t, (∀ u ∈ t.operands, motive u) → motive t) (t : Term) :
    motive t := by
  induction t with
  | const name s | bool b | int n | real q => exact step _ (List.forall_mem_nil _)
  | arith op a b iha ihb | div a b iha ihb | eq a b iha ihb | compare op a b iha ihb | implies a b iha ihb =>
    exact step _ (List.forall_mem_cons.2 ⟨iha, List.forall_mem_singleton.2 ihb⟩)
  | neg a ih | not a ih | quantified q binders a ih => exact step _ (List.forall_mem_singleton.2 ih)
  | ite c a b ihc iha ihb =>
    exact step _ (List.forall_mem_cons.2 ⟨ihc, List.forall_mem_cons.2 ⟨iha, List.forall_mem_singleton.2 ihb⟩⟩)
  | junction j ts ih => exact step _ ih

/-- A term mentions itself, if it is a constant, and what its operands mention and it does not bind. -/
theorem mentions_iff_operands {t : Term} {c : String × TermSort} :
    t.Mentions c ↔ t = const c.1 c.2 ∨ ∃ u ∈ t.operands, u.Mentions c ∧ c.1 ∉ t.ownBinders.map (·.name) := by
  cases t with
  | const name s =>
    have hconst : (const name s).Mentions c ↔ c = (name, s) := by simp [Mentions, freeOccurrences]
    rw [hconst]
    simp only [operands, List.not_mem_nil, false_and, exists_false, or_false, const.injEq]
    constructor
    · rintro rfl
      exact ⟨rfl, rfl⟩
    · rintro ⟨rfl, rfl⟩
      rfl
  | bool b | int n | real q => simp [Mentions, freeOccurrences, operands]
  | arith op a b | div a b | neg a | ite c a b | eq a b | compare op a b | not a | implies a b =>
    simp [Mentions, freeOccurrences, operands, ownBinders]
  | junction j ts => simp [Mentions, freeOccurrences, freeOccurrencesAll_eq, operands, ownBinders]
  | quantified q binders body => simp [mentions_quantified, operands, ownBinders]

theorem mentions_iff_partUnder {t : Term} {c : String × TermSort} :
    t.Mentions c ↔ ∃ scope, t.PartUnder scope (const c.1 c.2) ∧ c.1 ∉ scope := by
  constructor
  · intro h
    induction t using operands_induction with
    | step t ih =>
      rcases mentions_iff_operands.1 h with rfl | ⟨u, hu, hc, hfree⟩
      · exact ⟨[], .whole _, List.not_mem_nil⟩
      · obtain ⟨scope, hpart, hscope⟩ := ih u hu hc
        exact ⟨_, .operand hu hpart, List.not_mem_append hfree hscope⟩
  · rintro ⟨scope, hpart, hscope⟩
    generalize hconst : const c.1 c.2 = part at hpart
    induction hpart with
    | whole t => exact mentions_iff_operands.2 (.inl hconst.symm)
    | operand hu _ ih =>
      rw [List.mem_append, not_or] at hscope
      exact mentions_iff_operands.2 (.inr ⟨_, hu, ih hscope.2 hconst, hscope.1⟩)

/-- The table of free constants has the names that occur free. -/
theorem contains_freeConsts_iff_occursFree {t : Term} {name : String} :
    t.freeConsts.contains name = true ↔ t.OccursFree name := by
  rw [contains_freeConsts_iff]
  constructor
  · rintro ⟨s, hs⟩
    obtain ⟨scope, hpart, hscope⟩ := mentions_iff_partUnder.1 hs
    exact ⟨scope, s, hpart, hscope⟩
  · rintro ⟨scope, s, hpart, hscope⟩
    exact ⟨s, mentions_iff_partUnder.2 ⟨scope, hpart, hscope⟩⟩

end Term

/-! ## Relations between evaluations -/

/-- What an assignment gives to a name. -/
def Assignment.value (env : Assignment) (name : String) : Except EvalError Scalar :=
  match env.get? name with
  | some s => .ok s
  | none => .error (.unbound name)

/-- The computation never misses a name. -/
def MissesNothing {α : Type} (x : Except EvalError α) : Prop := ∀ name, x ≠ .error (.unbound name)

theorem FailsLocally.missesNothing {α : Type} {x : Except EvalError α} (h : FailsLocally x) : MissesNothing x :=
  fun _ hx => h _ hx

theorem missesNothing_ok {α : Type} (a : α) : MissesNothing (.ok a) := by
  rintro name ⟨⟩

theorem Scalar.missesNothing_quotient (x y : Float) : MissesNothing (Scalar.quotient x y) := by
  intro name h
  unfold Scalar.quotient at h
  split at h <;> cases h

/-- A relation between computations that evaluation takes from the constants to the whole term: it is
kept when computations follow one another, and it holds of every step that looks at no assignment. -/
structure Sequential (R : ∀ {α : Type}, Except EvalError α → Except EvalError α → Prop) : Prop where
  refl : ∀ {α : Type} {x : Except EvalError α}, MissesNothing x → R x x
  bind : ∀ {α β : Type} {x y : Except EvalError α} {f g : α → Except EvalError β},
    R x y → (∀ a, R (f a) (g a)) → R (x >>= f) (y >>= g)

namespace Sequential

variable {R : ∀ {α : Type}, Except EvalError α → Except EvalError α → Prop} (hR : Sequential R)
  {env env' : Assignment}

include hR

theorem ok {α : Type} (a : α) : R (.ok a) (.ok a) := hR.refl (missesNothing_ok a)

theorem truth (v : Scalar) : R v.truth v.truth := hR.refl v.truth_failsLocally.missesNothing

theorem number (v : Scalar) : R v.number v.number := hR.refl v.number_failsLocally.missesNothing

/-- The steps of a junction: the operands in turn, as long as they do not decide it. -/
theorem evalJunction {j : Junction} {ts : List Term} (h : ∀ t ∈ ts, R (t.eval env) (t.eval env')) :
    R (Term.evalJunction env j ts) (Term.evalJunction env' j ts) := by
  induction ts with
  | nil =>
    rw [Term.evalJunction_nil, Term.evalJunction_nil]
    exact hR.ok _
  | cons t ts ih =>
    rw [List.forall_mem_cons] at h
    rw [Term.evalJunction, Term.evalJunction]
    refine hR.bind h.1 fun v => hR.bind (hR.truth v) fun p => ?_
    split
    · exact ih h.2
    · exact hR.ok _

/-- A relation that holds of the free constants holds of the term. -/
theorem eval {t : Term} (h : ∀ o ∈ t.freeOccurrences [], R (env.value o.1) (env'.value o.1)) :
    R (t.eval env) (t.eval env') := by
  -- evaluation stops at a quantifier, so no name is ever bound on the way down
  induction t with
  | const name s =>
    rw [Term.eval, Term.eval]
    exact h (name, s) (by simp [Term.freeOccurrences])
  | bool b | int n | real q =>
    rw [Term.eval, Term.eval]
    exact hR.ok _
  | arith op a b iha ihb =>
    rw [Term.freeOccurrences, List.forall_mem_append] at h
    rw [Term.eval, Term.eval]
    exact hR.bind (iha h.1) fun v => hR.bind (ihb h.2) fun w => hR.refl (op.apply_failsLocally v w).missesNothing
  | div a b iha ihb =>
    rw [Term.freeOccurrences, List.forall_mem_append] at h
    rw [Term.eval, Term.eval]
    refine hR.bind (iha h.1) fun v => hR.bind (hR.number v) fun x => hR.bind (ihb h.2) fun w => ?_
    exact hR.bind (hR.number w) fun y => hR.refl (Scalar.missesNothing_quotient x y)
  | neg a ih =>
    rw [Term.eval, Term.eval]
    exact hR.bind (ih h) fun v => hR.refl v.negated_failsLocally.missesNothing
  | ite c a b ihc iha ihb =>
    rw [Term.freeOccurrences, List.forall_mem_append, List.forall_mem_append] at h
    rw [Term.eval, Term.eval]
    refine hR.bind (ihc h.1.1) fun v => hR.bind (hR.truth v) fun p => ?_
    split
    · exact iha h.1.2
    · exact ihb h.2
  | eq a b iha ihb =>
    rw [Term.freeOccurrences, List.forall_mem_append] at h
    rw [Term.eval, Term.eval]
    refine hR.bind (iha h.1) fun v => hR.bind (ihb h.2) fun w => ?_
    exact hR.bind (hR.refl (v.equal_failsLocally w).missesNothing) fun p => hR.ok _
  | compare op a b iha ihb =>
    rw [Term.freeOccurrences, List.forall_mem_append] at h
    rw [Term.eval, Term.eval]
    refine hR.bind (iha h.1) fun v => hR.bind (hR.number v) fun x => hR.bind (ihb h.2) fun w => ?_
    exact hR.bind (hR.number w) fun y => hR.ok _
  | junction j ts ih =>
    rw [Term.freeOccurrences, Term.freeOccurrencesAll_eq] at h
    rw [Term.eval_junction, Term.eval_junction]
    exact hR.evalJunction fun t ht => ih t ht fun o ho => h o (List.mem_flatMap.2 ⟨t, ht, ho⟩)
  | not a ih =>
    rw [Term.eval, Term.eval]
    exact hR.bind (ih h) fun v => hR.bind (hR.truth v) fun p => hR.ok _
  | implies a b iha ihb =>
    rw [Term.freeOccurrences, List.forall_mem_append] at h
    rw [Term.eval, Term.eval]
    refine hR.bind (iha h.1) fun v => hR.bind (hR.truth v) fun p => ?_
    split
    · exact hR.bind (ihb h.2) fun w => hR.bind (hR.truth w) fun q => hR.ok _
    · exact hR.ok _
  | quantified q binders body ih =>
    rw [Term.eval, Term.eval]
    exact hR.refl fun name => by rintro ⟨⟩

end Sequential

theorem sequential_eq : Sequential fun x y => x = y where
  refl _ := rfl
  bind := by
    rintro α β x _ f g rfl hfg
    rw [funext hfg]

theorem sequential_keepsValue : Sequential KeepsValue where
  refl _ := .refl _
  bind h hfg := h.bind hfg

/-- The first computation misses only names with a property. -/
theorem sequential_misses (P : String → Prop) :
    Sequential fun {α} (x _ : Except EvalError α) => ∀ name, x = .error (.unbound name) → P name where
  refl h name hx := absurd hx (h name)
  bind := by
    intro α β x y f g h hfg name hx
    cases x with
    | error e => exact h name (by cases hx; rfl)
    | ok a => exact hfg a name hx

/-! ## Dependence -/

namespace Term

variable {t : Term} {env env' : Assignment}

theorem contains_of_mem_freeOccurrences {o : String × TermSort} (h : o ∈ t.freeOccurrences []) :
    t.freeConsts.contains o.1 = true := (t.freeConsts_contains_iff o.1).2 ⟨o.2, h⟩

theorem eval_congr (h : ∀ name, t.freeConsts.contains name = true → env.get? name = env'.get? name) :
    t.eval env = t.eval env' := by
  refine sequential_eq.eval fun o ho => ?_
  unfold Assignment.value
  rw [h o.1 (contains_of_mem_freeOccurrences ho)]

theorem free_and_missing_of_unbound {name : String} (h : t.eval env = .error (.unbound name)) :
    t.freeConsts.contains name = true ∧ env.get? name = none := by
  refine @Sequential.eval _ (sequential_misses fun n => t.freeConsts.contains n = true ∧ env.get? n = none) env env t
    (fun o ho n hn => ?_) name h
  unfold Assignment.value at hn
  split at hn
  · cases hn
  · rename_i hnone
    cases hn
    exact ⟨contains_of_mem_freeOccurrences ho, hnone⟩

theorem eval_of_extension {v : Scalar} (h : ∀ name s, env.get? name = some s → env'.get? name = some s)
    (hv : t.eval env = .ok v) : t.eval env' = .ok v := by
  refine sequential_keepsValue.eval (fun o _ s hs => ?_) v hv
  unfold Assignment.value at hs ⊢
  split at hs
  · rename_i s' hs'
    rw [h _ _ hs']
    exact hs
  · cases hs

/-- The table of free constants has the names that occur where nothing binds them, and a term depends
on them only: its value and its failure under an assignment, where no other name is ever missed and new
names change no value, and what it denotes with its quantifiers over exact numbers. -/
theorem depends_on_freeConsts (t : Term) :
    (∀ name, t.freeConsts.contains name = true ↔ t.OccursFree name) ∧
    (∀ env env' : Assignment, (∀ name, t.freeConsts.contains name = true → env.get? name = env'.get? name) →
      t.eval env = t.eval env') ∧
    (∀ (env : Assignment) (name : String), t.eval env = .error (.unbound name) →
      t.freeConsts.contains name = true ∧ env.get? name = none) ∧
    (∀ (env env' : Assignment) (v : Scalar), (∀ name s, env.get? name = some s → env'.get? name = some s) →
      t.eval env = .ok v → t.eval env' = .ok v) ∧
    ∀ I J : Interpretation, I.divide = J.divide →
      (∀ name, t.freeConsts.contains name = true → I.value name = J.value name) →
      t.meaning I = t.meaning J ∧ (I.Satisfies t ↔ J.Satisfies t) := by
  refine ⟨fun name => contains_freeConsts_iff_occursFree, fun env env' h => eval_congr h,
    fun env name h => free_and_missing_of_unbound h, fun env env' v h hv => eval_of_extension h hv,
    fun I J hdivide hvalue => ?_⟩
  have hmeaning : t.meaning I = t.meaning J :=
    t.meaning_congr ⟨hdivide, fun name hname => hvalue name ((t.freeConsts_contains_iff name).2 hname)⟩
  exact ⟨hmeaning, by rw [Interpretation.Satisfies, Interpretation.Satisfies, hmeaning]⟩

/-- A name that is free on the left, where it decides the value, and bound twice over on the right,
where another one is free and a third one only bound. -/
theorem depends_on_freeConsts_shadowed :
    let t : Term := .or [.boolConst "x", .thereIs [⟨"x", .real⟩, ⟨"x", .real⟩]
      (.and [(realConst "x").lt (.realConst "z"), .forAll [⟨"y", .real⟩] ((realConst "y").ge (.realConst "x"))])]
    let env : Assignment := Dict.empty.insert "x" (.bool true)
    let more : Assignment := (env.insert "y" (.int 1)).insert "z" (.int 5)
    let other : Assignment := more.insert "y" (.bool false)
    let I : Interpretation := ⟨fun _ => .number 0, fun p q => p / q⟩
    let J : Interpretation := I.set "y" (.truth true)
    (t.OccursFree "x" ∧ t.OccursFree "z" ∧ ¬ t.OccursFree "y") ∧
      ((∀ name, t.freeConsts.contains name = true → more.get? name = other.get? name) ∧ t.eval more = t.eval other) ∧
      (t.eval .empty = .error (.unbound "x") ∧ t.freeConsts.contains "x" = true ∧
        (.empty : Assignment).get? "x" = none) ∧
      ((∀ name s, env.get? name = some s → more.get? name = some s) ∧ t.eval env = .ok (.bool true) ∧
        t.eval more = .ok (.bool true)) ∧
      I.divide = J.divide ∧ (∀ name, t.freeConsts.contains name = true → I.value name = J.value name) ∧
        t.meaning I = t.meaning J := by
  intro t env more other I J
  obtain ⟨hfree, hagree, hmissed, hextended, hmeaning⟩ := depends_on_freeConsts t
  have hnames : ∀ name, t.freeConsts.contains name = true → name ∈ ["x", "z"] := by
    intro name hname
    obtain ⟨s, hs⟩ := (t.freeConsts_contains_iff name).1 hname
    exact List.mem_map_of_mem (f := Prod.fst) hs
  have hvalues : ∀ name, t.freeConsts.contains name = true → more.get? name = other.get? name := by
    intro name hname
    refine ((Dict.get?_insert more "y" name _).trans (if_neg ?_)).symm
    rintro rfl
    exact absurd (hnames _ hname) (by decide)
  have hmore : ∀ name s, env.get? name = some s → more.get? name = some s := by
    intro name s hs
    have hx : name = "x" := by
      by_contra hx
      rw [Dict.get?_insert, if_neg (Ne.symm hx)] at hs
      cases hs
    subst hx
    rw [Dict.get?_insert, if_neg (by decide), Dict.get?_insert, if_neg (by decide)]
    exact hs
  have hsame : ∀ name, t.freeConsts.contains name = true → I.value name = J.value name := by
    intro name hname
    refine (I.set_value_of_ne _ ?_).symm
    rintro rfl
    exact absurd (hnames _ hname) (by decide)
  have hempty : t.eval .empty = .error (.unbound "x") := by cbv
  have henv : t.eval env = .ok (.bool true) := by cbv
  refine ⟨⟨(hfree "x").1 (by decide), (hfree "z").1 (by decide), ?_⟩, ⟨hvalues, hagree more other hvalues⟩,
    ⟨hempty, hmissed _ _ hempty⟩, ⟨hmore, henv, hextended env more _ hmore henv⟩, rfl, hsame,
    (hmeaning I J rfl hsame).1⟩
  intro hy
  exact absurd ((hfree "y").2 hy) (by decide)

end Term

end RoadPolicy
