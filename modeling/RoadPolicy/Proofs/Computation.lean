/-
Computations that keep a state and may fail: how their steps compose when they are run.
-/
import Mathlib.Tactic

namespace RoadPolicy

variable {ε σ α β : Type}

/-- A computation goes on from where its first part stopped, unless that part failed. -/
theorem run_bind (x : ExceptT ε (StateM σ) α) (f : α → ExceptT ε (StateM σ) β) (s : σ) :
    (x >>= f).run.run s =
      match x.run.run s with
      | (.ok a, s') => (f a).run.run s'
      | (.error e, s') => (.error e, s') := by
  show (match x s with | (r, s') => ExceptT.bindCont f r s') =
    match x s with
    | (.ok a, s') => f a s'
    | (.error e, s') => (.error e, s')
  rcases x s with ⟨r | a, s'⟩ <;> rfl

/-- A computation that succeeds has succeeded in both parts. -/
theorem run_bind_eq_ok {x : ExceptT ε (StateM σ) α} {f : α → ExceptT ε (StateM σ) β} {s s'' : σ} {b : β}
    (h : (x >>= f).run.run s = (.ok b, s'')) :
    ∃ a s', x.run.run s = (.ok a, s') ∧ (f a).run.run s' = (.ok b, s'') := by
  rw [run_bind] at h
  rcases hx : x.run.run s with ⟨e | a, s'⟩
  · rw [hx] at h; cases h
  · rw [hx] at h
    exact ⟨a, s', rfl, h⟩

/-- A computation that fails has failed in its first part, or in the second one after that. -/
theorem run_bind_eq_error {x : ExceptT ε (StateM σ) α} {f : α → ExceptT ε (StateM σ) β} {s s'' : σ} {e : ε}
    (h : (x >>= f).run.run s = (.error e, s'')) :
    x.run.run s = (.error e, s'') ∨ ∃ a s', x.run.run s = (.ok a, s') ∧ (f a).run.run s' = (.error e, s'') := by
  rw [run_bind] at h
  rcases hx : x.run.run s with ⟨e' | a, s'⟩
  · rw [hx] at h; cases h
    exact .inl rfl
  · rw [hx] at h
    exact .inr ⟨a, s', rfl, h⟩

theorem bind_eq_ok {x : Except ε α} {f : α → Except ε β} {b : β} (h : x >>= f = .ok b) :
    ∃ a, x = .ok a ∧ f a = .ok b := by
  cases x with
  | error e => cases h
  | ok a => exact ⟨a, rfl, h⟩

theorem run_get (s : σ) : (get : ExceptT ε (StateM σ) σ).run.run s = (.ok s, s) := rfl

end RoadPolicy
