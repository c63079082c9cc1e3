/-
What a registry holds after names are bound in it and formulas are added to it.
-/
import Mathlib.Tactic
import RoadPolicy.Policy.Registry

namespace RoadPolicy

namespace Registry

/-! ## Formulas -/

@[simp] theorem formulas_assertAll (r : Registry) (s s' : Space) (fs : List Term) :
    (r.assertAll s fs).formulas s' = r.formulas s' ++ if s = s' then fs else [] := by
  cases s <;> cases s' <;> simp [assertAll, update, formulas, table]

@[simp] theorem formulas_assert (r : Registry) (s s' : Space) (f : Term) :
    (r.assert s f).formulas s' = r.formulas s' ++ if s = s' then [f] else [] :=
  r.formulas_assertAll s s' [f]

@[simp] theorem formulas_define (r : Registry) (s s' : Space) (name : String) (v : Value) :
    (r.define s name v).formulas s' = r.formulas s' := by
  cases s <;> cases s' <;> rfl

@[simp] theorem formulas_defineAll (s s' : Space) : ∀ (bindings : List (String × Value)) (r : Registry),
    (r.defineAll s bindings).formulas s' = r.formulas s'
  | [], _ => rfl
  | b :: bindings, r => (formulas_defineAll s s' bindings (r.define s b.1 b.2)).trans (r.formulas_define ..)

/-! ## Values -/

theorem lookupIn_define (r : Registry) (space space' : Space) (name other : String) (v : Value) :
    (r.define space name v).lookupIn space' other =
      if space = space' ∧ name = other then some v else r.lookupIn space' other := by
  cases space <;> cases space' <;> simp [define, update, lookupIn, symbols, table, Dict.get?_insert]

@[simp] theorem lookupIn_assertAll (r : Registry) (space space' : Space) (ts : List Term) (name : String) :
    (r.assertAll space ts).lookupIn space' name = r.lookupIn space' name := by
  cases space <;> cases space' <;> rfl

/-- Bindings of other names or in another space are not noticed. -/
theorem lookupIn_defineAll_of_ne {space space' : Space} {name : String} :
    ∀ {bindings : List (String × Value)} (r : Registry), (∀ b ∈ bindings, space = space' → b.1 ≠ name) →
      (r.defineAll space bindings).lookupIn space' name = r.lookupIn space' name
  | [], _, _ => rfl
  | b :: bindings, r, h => by
    rw [List.forall_mem_cons] at h
    have hfirst : (r.define space b.1 b.2).lookupIn space' name = r.lookupIn space' name := by
      rw [lookupIn_define, if_neg fun hname => h.1 hname.1 hname.2]
    exact (lookupIn_defineAll_of_ne (r.define space b.1 b.2) h.2).trans hfirst

/-- Bindings of a name that all agree bind it to their common value. -/
theorem lookupIn_defineAll (space : Space) {name : String} {v : Value} :
    ∀ {bindings : List (String × Value)} (r : Registry), (name, v) ∈ bindings →
      (∀ b ∈ bindings, b.1 = name → b.2 = v) → (r.defineAll space bindings).lookupIn space name = some v
  | b :: bindings, r, hmem, hsame => by
    rw [List.forall_mem_cons] at hsame
    by_cases hlater : (name, v) ∈ bindings
    · exact lookupIn_defineAll space (r.define space b.1 b.2) hlater hsame.2
    · -- the first binding is the last one of the name
      obtain rfl : (name, v) = b := (List.mem_cons.1 hmem).resolve_right hlater
      have hne : ∀ b ∈ bindings, space = space → b.1 ≠ name := by
        rintro ⟨name', v'⟩ hb - rfl
        obtain rfl := hsame.2 _ hb rfl
        exact hlater hb
      refine (lookupIn_defineAll_of_ne (r.define space name v) hne).trans ?_
      rw [lookupIn_define, if_pos ⟨rfl, rfl⟩]

end Registry

end RoadPolicy
