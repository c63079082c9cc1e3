/-
The order in which a run makes its calls. A complete run populates the model, binds the code policy
at most once, compiles sources of the code, then sources of the user, asks the solver once and
decodes the answer any number of times. A list of calls is in order if it begins a complete run;
an automaton with six phases decides this one call at a time.
-/
import Mathlib.Tactic
import RoadPolicy.Check.Verifier

namespace RoadPolicy

/-- The calls that change something, in a run from the beginning to the end. -/
def CompleteRun (calls : List StagedCall) : Prop :=
  ∃ binds codes users decodes, binds ≤ 1 ∧ 1 ≤ codes ∧ 1 ≤ users ∧
    calls = .populateModel :: (List.replicate binds .bindCodePolicy ++ (List.replicate codes .compileCode ++
      (List.replicate users .compileUser ++ .solve :: List.replicate decodes .decodeResult)))

/-- The beginnings of complete runs. -/
def InOrder (calls : List StagedCall) : Prop := ∃ full, CompleteRun full ∧ calls <+: full

/-- How far the calls of a run have come. -/
inductive Phase where
  | start | populated | bound | code | user | solved
deriving DecidableEq

namespace Phase

/-- The phase after one more call, if that call is in order. -/
def next : Phase → StagedCall → Option Phase
  | start, .populateModel => some populated
  | populated, .bindCodePolicy => some bound
  | populated, .compileCode => some code
  | bound, .compileCode => some code
  | code, .compileCode => some code
  | code, .compileUser => some user
  | user, .compileUser => some user
  | user, .solve => some solved
  | solved, .decodeResult => some solved
  | _, _ => none

/-- The phase after some calls from the beginning, if all of them are in order. -/
def reached (calls : List StagedCall) : Option Phase := calls.foldlM next start

theorem reached_snoc (calls : List StagedCall) (k : StagedCall) :
    reached (calls ++ [k]) = (reached calls).bind (·.next k) := by
  rw [reached, List.foldlM_append]
  simp [reached]

theorem foldlM_replicate {phase : Phase} {k : StagedCall} (h : phase.next k = some phase) :
    ∀ n, (List.replicate n k).foldlM next phase = some phase
  | 0 => rfl
  | n + 1 => by
    rw [List.replicate_succ, List.foldlM_cons, h]
    exact foldlM_replicate h n

theorem reached_of_completeRun {full : List StagedCall} (h : CompleteRun full) : reached full = some solved := by
  obtain ⟨binds, codes, users, decodes, hb, hc, hu, rfl⟩ := h
  obtain ⟨codes, rfl⟩ := Nat.exists_eq_add_of_le' hc
  obtain ⟨users, rfl⟩ := Nat.exists_eq_add_of_le' hu
  have hcodes : (List.replicate codes .compileCode).foldlM next code = some code := foldlM_replicate rfl codes
  have husers : (List.replicate users .compileUser).foldlM next user = some user := foldlM_replicate rfl users
  have hdecodes : (List.replicate decodes .decodeResult).foldlM next solved = some solved :=
    foldlM_replicate rfl decodes
  obtain rfl | rfl : binds = 0 ∨ binds = 1 := by omega
  · simp [reached, next, List.replicate_succ, hcodes, husers, hdecodes]
  · simp [reached, next, List.replicate_succ, hcodes, husers, hdecodes]

/-- The calls that lead to each phase. -/
def Shape (calls : List StagedCall) : Phase → Prop
  | start => calls = []
  | populated => calls = [.populateModel]
  | bound => calls = [.populateModel, .bindCodePolicy]
  | code => ∃ binds codes, binds ≤ 1 ∧ 1 ≤ codes ∧
      calls = .populateModel :: (List.replicate binds .bindCodePolicy ++ List.replicate codes .compileCode)
  | user => ∃ binds codes users, binds ≤ 1 ∧ 1 ≤ codes ∧ 1 ≤ users ∧
      calls = .populateModel :: (List.replicate binds .bindCodePolicy ++ (List.replicate codes .compileCode ++
        List.replicate users .compileUser))
  | solved => CompleteRun calls

theorem Shape.next {calls : List StagedCall} {p q : Phase} {k : StagedCall} (hs : Shape calls p)
    (h : p.next k = some q) : Shape (calls ++ [k]) q := by
  cases p with
  | start =>
    cases k <;> cases h
    cases hs; rfl
  | populated =>
    cases k <;> cases h <;> cases hs
    · rfl
    · exact ⟨0, 1, by decide, by decide, rfl⟩
  | bound =>
    cases k <;> cases h
    cases hs; exact ⟨1, 1, by decide, by decide, rfl⟩
  | code =>
    obtain ⟨binds, codes, hb, hc, rfl⟩ := hs
    cases k <;> cases h
    · exact ⟨binds, codes + 1, hb, by omega, by simp [List.replicate_succ']⟩
    · exact ⟨binds, codes, 1, hb, hc, by decide, by simp⟩
  | user =>
    obtain ⟨binds, codes, users, hb, hc, hu, rfl⟩ := hs
    cases k <;> cases h
    · exact ⟨binds, codes, users + 1, hb, hc, by omega, by simp [List.replicate_succ']⟩
    · exact ⟨binds, codes, users, 0, hb, hc, hu, by simp⟩
  | solved =>
    obtain ⟨binds, codes, users, decodes, hb, hc, hu, rfl⟩ := hs
    cases k <;> cases h
    exact ⟨binds, codes, users, decodes + 1, hb, hc, hu, by simp [List.replicate_succ']⟩

theorem shape_of_reached {calls : List StagedCall} {p : Phase} (h : reached calls = some p) : Shape calls p := by
  induction calls using List.reverseRecOn generalizing p with
  | nil => cases h; rfl
  | append_singleton calls k ih =>
    rw [reached_snoc, Option.bind_eq_some_iff] at h
    obtain ⟨q, hq, hk⟩ := h
    exact (ih hq).next hk

/-- Whatever has been called in order can be completed. -/
theorem Shape.inOrder {calls : List StagedCall} {p : Phase} (h : Shape calls p) : InOrder calls := by
  cases p with
  | start => cases h; exact ⟨_, ⟨0, 1, 1, 0, by decide, by decide, by decide, rfl⟩, List.nil_prefix⟩
  | populated =>
    cases h
    exact ⟨_, ⟨0, 1, 1, 0, by decide, by decide, by decide, rfl⟩, [.compileCode, .compileUser, .solve], rfl⟩
  | bound =>
    cases h
    exact ⟨_, ⟨1, 1, 1, 0, by decide, by decide, by decide, rfl⟩, [.compileCode, .compileUser, .solve], rfl⟩
  | code =>
    obtain ⟨binds, codes, hb, hc, rfl⟩ := h
    exact ⟨_, ⟨binds, codes, 1, 0, hb, hc, by decide, rfl⟩, [.compileUser, .solve], by simp⟩
  | user =>
    obtain ⟨binds, codes, users, hb, hc, hu, rfl⟩ := h
    exact ⟨_, ⟨binds, codes, users, 0, hb, hc, hu, rfl⟩, [.solve], by simp⟩
  | solved => exact ⟨calls, h, List.prefix_refl _⟩

end Phase

/-- The automaton accepts exactly the calls in order. -/
theorem inOrder_iff_reached {calls : List StagedCall} : InOrder calls ↔ ∃ p, Phase.reached calls = some p := by
  constructor
  · rintro ⟨full, hfull, rest, rfl⟩
    have h := Phase.reached_of_completeRun hfull
    rw [Phase.reached, List.foldlM_append] at h
    obtain ⟨p, hp, -⟩ := Option.bind_eq_some_iff.1 h
    exact ⟨p, hp⟩
  · rintro ⟨p, hp⟩
    exact (Phase.shape_of_reached hp).inOrder

/-- One more call is in order exactly if the automaton has a phase for it. -/
theorem inOrder_snoc_iff {calls : List StagedCall} {k : StagedCall} {p : Phase} (h : Phase.reached calls = some p) :
    InOrder (calls ++ [k]) ↔ ∃ q, p.next k = some q := by
  rw [inOrder_iff_reached, Phase.reached_snoc, h]
  rfl

/-- Sources of the user have been compiled exactly in the last two phases. -/
theorem compileUser_mem_iff {calls : List StagedCall} {p : Phase} (h : Phase.reached calls = some p) :
    .compileUser ∈ calls ↔ p = .user ∨ p = .solved := by
  have hs := Phase.shape_of_reached h
  cases p with
  | start => cases hs; decide
  | populated => cases hs; decide
  | bound => cases hs; decide
  | code =>
    obtain ⟨binds, codes, -, -, rfl⟩ := hs
    simp
  | user =>
    obtain ⟨binds, codes, users, -, -, hu, rfl⟩ := hs
    simpa using Nat.ne_of_gt hu
  | solved =>
    obtain ⟨binds, codes, users, decodes, -, -, hu, rfl⟩ := hs
    simpa using Nat.ne_of_gt hu

end RoadPolicy
