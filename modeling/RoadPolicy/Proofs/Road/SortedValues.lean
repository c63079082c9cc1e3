/-
Well-sorted values: the coordinates, sizes and signals that a value is made of are numbers, and the
constraints of an object are formulas. A value without marked constants mentions no name with an
exclamation mark, so it never mentions a fresh name.
-/
import RoadPolicy.Proofs.Road.Relations
import RoadPolicy.Policy.Registry

namespace RoadPolicy

/-! ## The terms of a value -/

def Lane.terms (l : Lane) : List Term := [l.wayId, l.roadId, l.laneId, l.turn]

def Motion.terms (m : Motion) : List Term := m.v.terms ++ m.velocity :: m.trajectory.terms

/-- The numbers that an object is given by. -/
def TrafficObject.numbers (o : TrafficObject) : List Term :=
  o.pos.terms ++ o.size.terms ++ o.motion.elim [] Motion.terms ++ o.lane.elim [] Lane.terms ++ o.color.toList ++
    o.arriveTime.toList

namespace Value

/-- The numbers that a value is made of. A term is itself the value. -/
def numbers : Value → List Term
  | term _ => []
  | point p => p.terms
  | line l => l.terms
  | area a => a.terms
  | lane l => l.terms
  | object o => o.numbers

/-- The formulas that come with a value. -/
def constraints : Value → List Term
  | object o => o.constraints
  | _ => []

/-- All terms of a value. -/
def terms (v : Value) : List Term :=
  match v with
  | term t => [t]
  | v => v.numbers ++ v.constraints

/-- The value is well-sorted. -/
structure WellSorted (Γ : Signature) (v : Value) : Prop where
  term : ∀ t, v = .term t → t.WellSorted Γ
  numbers : AllNumbers Γ v.numbers
  constraints : ∀ t ∈ v.constraints, t.IsFormula Γ

theorem wellSorted_term {Γ : Signature} {t : Term} : (term t).WellSorted Γ ↔ t.WellSorted Γ := by
  constructor
  · intro h; exact h.term t rfl
  · intro h
    refine ⟨?_, allNumbers_nil, List.forall_mem_nil _⟩
    intro u hu
    cases hu
    exact h

theorem wellSorted_area {Γ : Signature} {a : Area} : (area a).WellSorted Γ ↔ AllNumbers Γ a.terms := by
  constructor
  · intro h; exact h.numbers
  · intro h
    refine ⟨?_, h, List.forall_mem_nil _⟩
    intro u hu
    cases hu

theorem mem_terms_of_mem_numbers {v : Value} {t : Term} (h : t ∈ v.numbers) : t ∈ v.terms := by
  cases v with
  | term u => cases h
  | point | line | area | lane | object => exact List.mem_append_left _ h

end Value

/-! ## Marked constants -/

/-- No free constant of the term has a mark in its name. -/
def Term.Unmarked (t : Term) : Prop := ∀ name, t.freeConsts.contains name = true → '!' ∉ name.toList

theorem Term.unmarked_iff {t : Term} : t.Unmarked ↔ ∀ c ∈ t.freeOccurrences [], '!' ∉ c.1.toList := by
  constructor
  · intro h c hc
    exact h c.1 ((t.freeConsts_contains_iff _).2 ⟨c.2, hc⟩)
  · intro h name hname
    obtain ⟨s, hs⟩ := (t.freeConsts_contains_iff _).1 hname
    exact h _ hs

/-- No term of the value has a free constant with a mark in its name. -/
def Value.Unmarked (v : Value) : Prop := ∀ t ∈ v.terms, t.Unmarked

theorem mark_mem_nextPoint (names : NameSupply) (ending : String) : '!' ∈ (names.nextPoint ++ ending).toList := by
  simp [NameSupply.nextPoint]

/-- The fresh names carry a mark. -/
theorem Term.Unmarked.spares {t : Term} (h : t.Unmarked) (names : NameSupply) : t.Spares names.nextPoint := by
  have hfree : ∀ ending : String, t.NotFree (names.nextPoint ++ ending) := by
    intro ending s hs
    exact h _ ((t.freeConsts_contains_iff _).2 ⟨s, hs⟩) (mark_mem_nextPoint names ending)
  exact ⟨hfree "_l", hfree "_s"⟩

/-- Every name that can be looked up stands for a well-sorted value without marked constants. -/
structure Registry.Admissible (Γ : Signature) (r : Registry) : Prop where
  sorted : ∀ name v, r.lookup name = some v → v.WellSorted Γ
  unmarked : ∀ name v, r.lookup name = some v → v.Unmarked

namespace Registry

theorem admissible_empty {Γ : Signature} : Registry.empty.Admissible Γ := by
  have hnone : ∀ name, Registry.empty.lookup name = none := fun name => rfl
  constructor
  · intro name v h
    rw [hnone] at h
    cases h
  · intro name v h
    rw [hnone] at h
    cases h

theorem lookup_eq (r : Registry) (name : String) :
    r.lookup name = ((r.code.symbols.get? name).or (r.model.symbols.get? name)).or (r.user.symbols.get? name) := by
  simp only [lookup, Space.lookupOrder, lookupIn, symbols, table, List.findSome?_cons]
  cases r.code.symbols.get? name with
  | some v => rfl
  | none => cases r.model.symbols.get? name with
    | some v => rfl
    | none => cases r.user.symbols.get? name <;> rfl

/-- A name denotes what it has just been bound to or what it denoted before. -/
theorem lookup_define {r : Registry} {space : Space} {name other : String} {v w : Value}
    (h : (r.define space name v).lookup other = some w) : w = v ∨ r.lookup other = some w := by
  rw [lookup_eq] at h ⊢
  by_cases hn : name = other
  · cases space with
    | code | model | user =>
      simp only [define, update, Dict.get?_insert, if_pos hn, Option.or_eq_some_iff, Option.or_eq_none_iff,
        Option.some.injEq, reduceCtorEq, false_and, or_false, and_false] at h ⊢
      grind
  · cases space with
    | code | model | user =>
      simp only [define, update, Dict.get?_insert, if_neg hn] at h
      exact .inr h

theorem Admissible.define {Γ : Signature} {r : Registry} (hr : r.Admissible Γ) {v : Value} (hsorted : v.WellSorted Γ)
    (hunmarked : v.Unmarked) (space : Space) (name : String) : (r.define space name v).Admissible Γ := by
  constructor
  · intro other w h
    rcases lookup_define h with rfl | hw
    · exact hsorted
    · exact hr.sorted other w hw
  · intro other w h
    rcases lookup_define h with rfl | hw
    · exact hunmarked
    · exact hr.unmarked other w hw

end Registry

end RoadPolicy
