/-
Failed calls leave no trace in a run. A call that fails changes at most how many names have been taken.
So a run from which failed calls are left out goes on in step with the whole run: the numbers of its
points are lower, and a strictly increasing renumbering leads from its registry to the other one. Each
call keeps the two runs in step; a failed call in the whole run only moves the numbers still to come.
-/
import Mathlib
import RoadPolicy.Proofs.Check.TidyRuns
import RoadPolicy.Proofs.Policy.RenamedCompile

namespace RoadPolicy

/-! ## The discipline -/

/-- What has no mark may be bound, and the points of numbers below a limit. -/
def Discipline.numbered (limit : Nat) : Discipline := fun _ binders => ∀ b ∈ binders, NumberedBelow limit b.name

theorem disciplines_numbered : Disciplines .unmarked .numbered where
  figures := fun _ _ _ _ h b hb => .inl (h b hb)
  fresh := fun n b hb => .inr ⟨n, Nat.lt_succ_self n, List.mem_map_of_mem (f := (·.name)) hb⟩
  mono := by
    intro n m outer binders hle h b hb
    rcases h b hb with hmark | ⟨i, hi, hname⟩
    · exact .inl hmark
    · exact .inr ⟨i, hi.trans_le hle, hname⟩

section

variable {ρ ρ' : Nat → Nat} {limit : Nat} {t : Term}

theorem Term.Tidy.renumber_congr (hρ : ∀ n < limit, ρ n = ρ' n) (h : t.Tidy (.numbered limit) []) :
    t.rename (renumber ρ) = t.rename (renumber ρ') := by
  refine h.rename_congr (fun name hname => ?_) (fun _ _ hD b hb => RoadPolicy.renumber_congr hρ (hD b hb))
    (List.forall_mem_nil _)
  rw [renumber_of_unmarked hname, renumber_of_unmarked hname]

/-- A term without marks keeps all its names. -/
theorem Term.Markless.rename_renumber (h : t.Markless) : t.rename (renumber ρ) = t.rename id :=
  h.tidy.rename_congr (fun _ => renumber_of_unmarked) (fun _ _ hD b hb => renumber_of_unmarked (hD b hb))
    (List.forall_mem_nil _)

theorem Registry.Tidy.renumber_congr {F : Discipline} {r : Registry} (hρ : ∀ n < limit, ρ n = ρ' n)
    (h : r.Tidy F (.numbered limit)) : r.rename (renumber ρ) = r.rename (renumber ρ') :=
  r.rename_congr (fun space t ht => (h.formulas space t ht).renumber_congr hρ)
    fun space name v hv t ht => ((h.values space name v hv).terms t ht).renumber_congr hρ

theorem Value.rename_of_markless {v : Value} (h : ∀ t ∈ v.terms, t.Markless) : v.rename (renumber ρ) = v := by
  rw [Value.rename_congr fun t ht => (h t ht).rename_renumber, Value.rename_id]

end

/-! ## Runs that differ in their numbers -/

/-- The reply of a call, with other names in a query. -/
def Reply.rename (f : String → String) : Reply → Reply
  | done => done
  | formulas query => formulas (query.map (Term.rename f))
  | verdict v => verdict v
  | report r => report r

namespace Verifier

/-- The two runs are in the same state, up to the numbers of points in the registry and the query. -/
structure SameUpTo (ρ : Nat → Nat) (v w : Verifier) : Prop where
  mode : w.mode = v.mode
  stage : w.stage = v.stage
  codeBound : w.codeBound = v.codeBound
  outcome : w.outcome = v.outcome
  registry : w.registry = v.registry.rename (renumber ρ)
  counts : w.counts = v.counts
  query : w.query = v.query.map (List.map (Term.rename (renumber ρ)))

variable {ρ ρ' : Nat → Nat} {v w : Verifier}

theorem conjuncts_rename {f : String → String} (hmode : w.mode = v.mode)
    (hregistry : w.registry = v.registry.rename f) :
    w.conjuncts = v.conjuncts.map (Term.rename f) := by
  rw [conjuncts, conjuncts, hmode, hregistry]
  simp only [Registry.formulas_rename]
  cases v.mode <;> simp [Term.rename]

theorem sameUpTo_of_registry (hmode : w.mode = v.mode) (hstage : w.stage = v.stage) (hbound : w.codeBound = v.codeBound)
    (houtcome : w.outcome = v.outcome) (hregistry : w.registry = v.registry.rename (renumber ρ)) : v.SameUpTo ρ w where
  mode := hmode
  stage := hstage
  codeBound := hbound
  outcome := houtcome
  registry := hregistry
  counts := by
    rw [counts, counts, hregistry]
    simp only [Registry.symbols_rename, Registry.formulas_rename, Dict.size, Dict.map, List.length_map]
  query := by
    rw [query, query, require, require, hstage, conjuncts_rename hmode hregistry]
    split <;> rfl

theorem Tidy.conjuncts {F : Discipline} {D : Nat → Discipline} (h : v.Tidy F D) :
    ∀ t ∈ v.conjuncts, t.Tidy (D v.names.issued) [] := by
  have hcode := Term.tidy_or.2 (h.formulas .code)
  have hmodel := Term.tidy_and.2 (h.formulas .model)
  have huser := Term.tidy_or.2 (h.formulas .user)
  rw [Verifier.conjuncts]
  cases v.mode <;> simp only [List.forall_mem_cons]
  · exact ⟨hcode, hmodel, huser, List.forall_mem_nil _⟩
  · exact ⟨hcode, hmodel, huser, List.forall_mem_nil _⟩

theorem SameUpTo.congr (h : v.SameUpTo ρ w) {F : Discipline} (htidy : v.Tidy F .numbered)
    (hρ : ∀ n < v.names.issued, ρ n = ρ' n) : v.SameUpTo ρ' w :=
  sameUpTo_of_registry h.mode h.stage h.codeBound h.outcome (h.registry.trans (Registry.Tidy.renumber_congr hρ htidy))

end Verifier

/-- A solver that does not look at the numbers of points: it answers alike where they are renumbered in order. -/
def Backend.Insensitive (backend : Backend) : Prop :=
  ∀ ρ : Nat → Nat, StrictMono ρ → ∀ ts : List Term, (∀ t ∈ ts, t.Unmarked) →
    backend (ts.map (Term.rename (renumber ρ))) = backend ts

/-! ## Calls in step -/

/-- The two runs are in step: the first leads to the second by a renumbering in order, also for the points still
to come. -/
structure Verifier.InStep (ρ : Nat → Nat) (v w : Verifier) : Prop where
  same : v.SameUpTo ρ w
  increasing : StrictMono ρ
  ahead : ∀ i, ρ (v.names.issued + i) = w.names.issued + i
  tidy : v.Tidy .unmarked .numbered
  tidy' : w.Tidy .unmarked .numbered

theorem Verifier.InStep.shifts {ρ : Nat → Nat} {v w : Verifier} (h : v.InStep ρ w) :
    Shifts (renumber ρ) v.names.issued w.names.issued := by
  intro i
  rw [map_renumber_coordinates, h.ahead]

namespace Call

variable {ρ : Nat → Nat} {v w : Verifier}

/-- What two runs make of a call: their answers and the states after it agree up to a renumbering, and both have
taken equally many names. -/
structure Agree (ρ : Nat → Nat) (v w : Verifier) (x y : Except VerifyError Reply × Verifier) : Prop where
  answer : y.1 = x.1.map (Reply.rename (renumber ρ))
  same : x.2.SameUpTo ρ y.2
  names : ∃ k, x.2.names.issued = v.names.issued + k ∧ y.2.names.issued = w.names.issued + k

theorem agree_refused (h : v.SameUpTo ρ w) (e : VerifyError) : Agree ρ v w (.error e, v) (.error e, w) :=
  ⟨rfl, h, 0, rfl, rfl⟩

theorem agree_compiling (h : v.InStep ρ w) (space : Space) (next : Stage) (source : String) :
    Agree ρ v w (v.compiling space next source) (w.compiling space next source) := by
  obtain ⟨k, hk, hrun⟩ : ∃ k, ((RoadPolicy.compile v.registry source).run.run v.names).2 = ⟨v.names.issued + k⟩ ∧
      (RoadPolicy.compile w.registry source).run.run w.names =
        (((RoadPolicy.compile v.registry source).run.run v.names).1.map (Term.rename (renumber ρ)),
          ⟨w.names.issued + k⟩) := by
    rw [h.same.registry]
    exact alike_compile source _ _ h.shifts
  unfold Verifier.compiling
  rw [hrun]
  rcases hv : (RoadPolicy.compile v.registry source).run.run v.names with ⟨e | formula, names⟩
  · rw [hv] at hk
    exact ⟨rfl, Verifier.sameUpTo_of_registry h.same.mode h.same.stage h.same.codeBound h.same.outcome h.same.registry,
      k, congrArg NameSupply.issued hk, rfl⟩
  · rw [hv] at hk
    refine ⟨rfl, Verifier.sameUpTo_of_registry h.same.mode rfl h.same.codeBound h.same.outcome ?_, k,
      congrArg NameSupply.issued hk, rfl⟩
    have hassert := v.registry.rename_assertAll (f := renumber ρ) space [formula]
    rw [← h.same.registry] at hassert
    exact hassert.symm

theorem agree_bound (h : v.InStep ρ w) {sc : Scenario} (hsc : ∀ t ∈ sc.worldModel.terms, t.Markless) :
    Agree ρ v w (.ok .done, v.bound sc) (.ok .done, w.bound sc) := by
  have hobjects : ∀ o ∈ sc.objects, o.rename (renumber ρ) = o := by
    intro o ho
    have hobject : (Value.object o).rename (renumber ρ) = .object o :=
      Value.rename_of_markless fun t ht => hsc t (Scenario.mem_worldModel_terms ho ht)
    exact Value.object.inj hobject
  obtain ⟨k, hk, hrun⟩ : ∃ k, ((CodeBindings.ofScenario sc).run v.names).2 = ⟨v.names.issued + k⟩ ∧
      (CodeBindings.ofScenario sc).run w.names =
        (((CodeBindings.ofScenario sc).run v.names).1.rename (renumber ρ), ⟨w.names.issued + k⟩) :=
    CodeBindings.alike_ofScenario (fun _ => renumber_of_unmarked) hobjects _ _ h.shifts
  refine ⟨rfl, Verifier.sameUpTo_of_registry h.same.mode h.same.stage rfl h.same.outcome ?_, k,
    congrArg NameSupply.issued hk, ?_⟩
  · simp only [Verifier.bound, Registry.rename_assertAll, Registry.rename_defineAll]
    rw [hrun, h.same.registry]
    rfl
  · exact congrArg (·.2.issued) hrun

theorem agree_populated (h : v.InStep ρ w) {world : WorldModel} (hworld : ∀ t ∈ world.terms, t.Markless) :
    Agree ρ v w (.ok .done, v.populated world) (.ok .done, w.populated world) := by
  have hterms := List.forall_mem_append.1 hworld
  have hsymbols : world.symbols.map (fun b => (b.1, b.2.rename (renumber ρ))) = world.symbols := by
    refine (List.map_congr_left fun b hb => ?_).trans (List.map_id _)
    rw [Value.rename_of_markless fun t ht => hterms.1 t (List.mem_flatMap_of_mem hb ht)]
    rfl
  have hinvariants : world.invariants.map (Term.rename (renumber ρ)) = world.invariants := by
    refine (List.map_congr_left fun t ht => ?_).trans (List.map_id _)
    rw [(hterms.2 t ht).rename_renumber, Term.rename_id]
    rfl
  refine ⟨rfl, Verifier.sameUpTo_of_registry h.same.mode rfl h.same.codeBound h.same.outcome ?_, 0, rfl, rfl⟩
  simp only [Verifier.populated, Registry.rename_assertAll, Registry.rename_defineAll]
  rw [hsymbols, hinvariants, h.same.registry]

/-- What a call does in a stage that allows it keeps the runs in step. -/
theorem agree_enact (h : v.InStep ρ w) {c : Call} (hworlds : ∀ world ∈ c.worlds, ∀ t ∈ world.terms, t.Markless)
    (hbackend : ∀ backend, c = .solve backend → backend.Insensitive) : Agree ρ v w (c.enact v) (c.enact w) := by
  cases c with
  | populate world => exact agree_populated h (hworlds _ List.mem_cons_self)
  | bind sc =>
    rw [enact, enact, h.same.codeBound]
    split
    · exact agree_refused h.same _
    · exact agree_bound h (hworlds _ List.mem_cons_self)
  | compile space source =>
    cases space with
    | model => exact agree_refused h.same _
    | code => exact agree_compiling h .code .codePopulated source
    | user => exact agree_compiling h .user .userPopulated source
  | query =>
    have hquery := Verifier.conjuncts_rename h.same.mode h.same.registry
    exact ⟨congrArg (Except.ok ∘ Reply.formulas) hquery, h.same, 0, rfl, rfl⟩
  | solve backend =>
    -- the two queries differ in the numbers of points only, and none of these is free
    have hanswer : backend w.conjuncts = backend v.conjuncts := by
      rw [Verifier.conjuncts_rename h.same.mode h.same.registry]
      refine hbackend backend rfl ρ h.increasing _ fun t ht => ?_
      exact Term.unmarked_iff.2 (h.tidy.conjuncts t ht).free
    rw [enact, enact, hanswer]
    rcases backend v.conjuncts with e | o
    · exact agree_refused h.same _
    · exact ⟨rfl, Verifier.sameUpTo_of_registry h.same.mode rfl h.same.codeBound rfl h.same.registry, 0, rfl, rfl⟩
  | decode =>
    rw [enact, enact, h.same.outcome]
    exact ⟨rfl, Verifier.sameUpTo_of_registry h.same.mode rfl h.same.codeBound rfl h.same.registry, 0, rfl, rfl⟩

/-- A call in both runs keeps them in step. -/
theorem agree_exec (h : v.InStep ρ w) {c : Call} (hworlds : ∀ world ∈ c.worlds, ∀ t ∈ world.terms, t.Markless)
    (hbackend : ∀ backend, c = .solve backend → backend.Insensitive) : Agree ρ v w (c.exec v) (c.exec w) := by
  have hrequire : ∀ k, w.require k = v.require k := fun k => by rw [Verifier.require, Verifier.require, h.same.stage]
  rw [exec_eq, exec_eq]
  rcases c.staged? with _ | k
  · exact agree_enact h hworlds hbackend
  · simp only [hrequire]
    rcases v.require k with e | ⟨⟩
    · exact agree_refused h.same e
    · exact agree_enact h hworlds hbackend

theorem inStep_exec (h : v.InStep ρ w) {c : Call} (hworlds : ∀ world ∈ c.worlds, ∀ t ∈ world.terms, t.Markless)
    (hbackend : ∀ backend, c = .solve backend → backend.Insensitive) : (c.exec v).2.InStep ρ (c.exec w).2 := by
  have hagree := agree_exec h hworlds hbackend
  have htidy : ∀ world ∈ c.worlds, ∀ t ∈ world.terms, t.Tidy .unmarked [] := fun world hw t ht =>
    (hworlds world hw t ht).tidy
  obtain ⟨k, hv, hw⟩ := hagree.names
  refine ⟨hagree.same, h.increasing, fun i => ?_, (tidyStep_exec disciplines_numbered h.tidy htidy).tidy,
    (tidyStep_exec disciplines_numbered h.tidy' htidy).tidy⟩
  rw [hv, hw, Nat.add_assoc, Nat.add_assoc]
  exact h.ahead (k + i)

/-- Only a query returns formulas, and they are those of the run. -/
theorem formulas_of_exec {c : Call} {query : List Term} (h : (c.exec v).1 = .ok (.formulas query)) :
    query = v.conjuncts := by
  rcases c.exec_cases v with ⟨e, hexec⟩ | hexec
  · rw [hexec] at h
    cases h
  rw [hexec] at h
  cases c with
  | query =>
    cases h
    rfl
  | bind sc =>
    rw [enact] at h
    split at h <;> cases h
  | compile space source =>
    cases space with
    | model => cases h
    | code | user =>
      rw [enact, Verifier.compiling] at h
      split at h <;> cases h
  | solve backend =>
    rw [enact] at h
    split at h <;> cases h
  | populate | decode => cases h

/-- A call that fails changes nothing but the names that have been taken. -/
theorem exec_of_error {c : Call} {e : VerifyError} (h : (c.exec v).1 = .error e) :
    (c.exec v).2 = { v with names := (c.exec v).2.names } := by
  rcases c.exec_cases v with ⟨e, hexec⟩ | hexec
  · rw [hexec]
  rw [hexec] at h ⊢
  cases c with
  | bind sc =>
    rw [enact] at h ⊢
    split at h
    · rename_i hbound
      rw [if_pos hbound]
    · cases h
  | compile space source =>
    cases space with
    | model => rfl
    | code | user =>
      rw [enact, Verifier.compiling] at h ⊢
      split at h
      · cases h
      · rfl
  | solve backend =>
    rw [enact] at h ⊢
    split at h
    · cases h
    · rfl
  | populate | query | decode => cases h

end Call

namespace Verifier

variable {ρ ρ' : Nat → Nat} {v w : Verifier}

/-- If only the second run takes more names, the points still to come get other numbers. -/
theorem InStep.skip (h : v.InStep ρ w) {names : NameSupply} (hle : w.names.issued ≤ names.issued) :
    ∃ ρ', (∀ n < v.names.issued, ρ n = ρ' n) ∧ v.InStep ρ' { w with names := names } := by
  let ρ' : Nat → Nat := fun n => if n < v.names.issued then ρ n else names.issued + (n - v.names.issued)
  -- the numbers that have been taken stay, the others move on with the second run
  have hlow : ∀ n < v.names.issued, ρ n = ρ' n := fun n hn => (if_pos hn).symm
  have hhigh : ∀ n, v.names.issued ≤ n → ρ' n = names.issued + (n - v.names.issued) := fun n hn => if_neg hn.not_gt
  have hnext : ρ v.names.issued = w.names.issued := h.ahead 0
  have hincreasing : StrictMono ρ' := by
    intro n m hnm
    rcases lt_or_ge m v.names.issued with hm | hm
    · rw [← hlow m hm, ← hlow n (hnm.trans hm)]
      exact h.increasing hnm
    rw [hhigh m hm]
    rcases lt_or_ge n v.names.issued with hn | hn
    · have hbelow := h.increasing hn
      rw [← hlow n hn]
      omega
    · rw [hhigh n hn]
      omega
  have hsame := h.same.congr h.tidy hlow
  refine ⟨ρ', hlow, sameUpTo_of_registry hsame.mode hsame.stage hsame.codeBound hsame.outcome hsame.registry,
    hincreasing, fun i => ?_, h.tidy, h.tidy'.imp fun _ _ => disciplines_numbered.mono hle⟩
  rw [hhigh _ (Nat.le_add_right _ _), Nat.add_sub_cancel_left]

/-! ## Whole runs -/

/-- A call on a run, its answer and the run after it. -/
structure Step where
  call : Call
  answer : Except VerifyError Reply
  after : Verifier

/-- Some calls on a run, one after the other. -/
def steps (v : Verifier) : List Call → List Step
  | [] => []
  | c :: cs => ⟨c, (c.exec v).1, (c.exec v).2⟩ :: (c.exec v).2.steps cs

/-- Steps from which some are left out, each of which has failed. -/
inductive Step.OmitsFailures : List Step → List Step → Prop
  | nil : OmitsFailures [] []
  | keep {s : Step} {all kept : List Step} : OmitsFailures all kept → OmitsFailures (s :: all) (s :: kept)
  | leave {s : Step} {all kept : List Step} {e : VerifyError} (h : s.answer = .error e) :
    OmitsFailures all kept → OmitsFailures (s :: all) kept

theorem Step.OmitsFailures.refl : ∀ all : List Step, OmitsFailures all all
  | [] => .nil
  | _ :: all => .keep (refl all)

/-- A failed call among others may be left out. -/
theorem Step.omitsFailures_append {d : Call} {ds : List Call} {e : VerifyError} : ∀ {v : Verifier} {cs : List Call},
    (d.exec (v.after cs)).1 = .error e →
      OmitsFailures (v.steps (cs ++ d :: ds)) (v.steps cs ++ (d.exec (v.after cs)).2.steps ds)
  | _, [], h => .leave h (.refl _)
  | _, _ :: _, h => .keep (omitsFailures_append h)

/-- The same call gets the same answer and leads to the same state, up to the numbers of points. -/
structure Step.SameUpTo (ρ : Nat → Nat) (s t : Step) : Prop where
  call : t.call = s.call
  answer : t.answer = s.answer.map (Reply.rename (renumber ρ))
  after : s.after.SameUpTo ρ t.after

/-- The step of a call in two runs that are in step, for a renumbering that may change later. -/
theorem InStep.step (h : v.InStep ρ w) {c : Call} (hworlds : ∀ world ∈ c.worlds, ∀ t ∈ world.terms, t.Markless)
    (hbackend : ∀ backend, c = .solve backend → backend.Insensitive)
    (hρ : ∀ n < (c.exec v).2.names.issued, ρ n = ρ' n) :
    Step.SameUpTo ρ' ⟨c, (c.exec v).1, (c.exec v).2⟩ ⟨c, (c.exec w).1, (c.exec w).2⟩ := by
  have hagree := Call.agree_exec h hworlds hbackend
  obtain ⟨k, hk, -⟩ := hagree.names
  have hbefore : ∀ n < v.names.issued, ρ n = ρ' n := fun n hn => hρ n (by omega)
  refine ⟨rfl, ?_, hagree.same.congr (Call.inStep_exec h hworlds hbackend).tidy hρ⟩
  show (c.exec w).1 = (c.exec v).1.map (Reply.rename (renumber ρ'))
  rw [hagree.answer]
  rcases hanswer : (c.exec v).1 with e | reply
  · rfl
  cases reply with
  | formulas query =>
    rw [Call.formulas_of_exec hanswer]
    have hquery : v.conjuncts.map (Term.rename (renumber ρ)) = v.conjuncts.map (Term.rename (renumber ρ')) :=
      List.map_congr_left fun t ht => (h.tidy.conjuncts t ht).renumber_congr hbefore
    exact congrArg (Except.ok ∘ Reply.formulas) hquery
  | done | verdict | report => rfl

theorem InStep.steps (h : v.InStep ρ w) {calls : List Call}
    (hworlds : ∀ c ∈ calls, ∀ world ∈ c.worlds, ∀ t ∈ world.terms, t.Markless)
    (hbackends : ∀ backend, .solve backend ∈ calls → Backend.Insensitive backend) {kept : List Step}
    (hkept : Step.OmitsFailures (w.steps calls) kept) :
    ∃ ρ', StrictMono ρ' ∧ (∀ n < v.names.issued, ρ n = ρ' n) ∧
      List.Forall₂ (Step.SameUpTo ρ') (v.steps (kept.map Step.call)) kept ∧
      (v.after (kept.map Step.call)).SameUpTo ρ' (w.after calls) := by
  induction calls generalizing ρ v w kept with
  | nil =>
    cases hkept
    exact ⟨ρ, h.increasing, fun _ _ => rfl, .nil, h.same⟩
  | cons c calls ih =>
    rw [List.forall_mem_cons] at hworlds
    have hbackend : ∀ backend, c = .solve backend → Backend.Insensitive backend := fun backend hc =>
      hbackends backend (hc ▸ List.mem_cons_self)
    have hrest : ∀ backend, .solve backend ∈ calls → Backend.Insensitive backend := fun backend hmem =>
      hbackends backend (List.mem_cons_of_mem _ hmem)
    cases hkept with
    | keep hkept =>
      -- the renumbering of the rest agrees with the old one on all numbers taken so far, so it also fits this call
      obtain ⟨ρ', hρ', hagrees, hsteps, hafter⟩ := ih (Call.inStep_exec h hworlds.1 hbackend) hworlds.2 hrest hkept
      obtain ⟨k, hk, -⟩ := (Call.agree_exec h hworlds.1 hbackend).names
      refine ⟨ρ', hρ', fun n hn => hagrees n (by omega), ?_, hafter⟩
      exact .cons (h.step hworlds.1 hbackend hagrees) hsteps
    | leave hfailed hkept =>
      -- only the whole run makes this call, and it changes nothing but the names that have been taken
      have htidy : ∀ world ∈ c.worlds, ∀ t ∈ world.terms, t.Tidy .unmarked [] := fun world hw t ht =>
        (hworlds.1 world hw t ht).tidy
      have hle := (Call.tidyStep_exec disciplines_numbered h.tidy' htidy).issued
      obtain ⟨ρ₁, hlow, hskip⟩ := h.skip hle
      rw [← Call.exec_of_error hfailed] at hskip
      obtain ⟨ρ', hρ', hagrees, hsteps, hafter⟩ := ih hskip hworlds.2 hrest hkept
      exact ⟨ρ', hρ', fun n hn => (hlow n hn).trans (hagrees n hn), hsteps, hafter⟩

theorem inStep_new (mode : ActionMode) : (new mode).InStep id (new mode) where
  same := sameUpTo_of_registry rfl rfl rfl rfl rfl
  increasing := strictMono_id
  ahead := fun _ => rfl
  tidy := tidy_new mode
  tidy' := tidy_new mode

/-- Failed calls leave no trace. If calls that failed are left out of a run, every other call gets the same answer and
leads to the same state, with the same stage and the same counts, up to one strictly increasing renumbering of the
points in registries and queries. The scenarios have no marks in their names, and the solvers do not look at the
numbers of points. -/
theorem failures_leave_no_trace (mode : ActionMode) (calls : List Call) (kept : List Step)
    (hworlds : ∀ c ∈ calls, ∀ world ∈ c.worlds, ∀ t ∈ world.terms, t.Markless)
    (hbackends : ∀ backend, .solve backend ∈ calls → Backend.Insensitive backend)
    (hkept : Step.OmitsFailures ((new mode).steps calls) kept) :
    ∃ ρ : Nat → Nat, StrictMono ρ ∧
      List.Forall₂ (Step.SameUpTo ρ) ((new mode).steps (kept.map Step.call)) kept ∧
      ((new mode).after (kept.map Step.call)).SameUpTo ρ ((new mode).after calls) := by
  obtain ⟨ρ, hρ, -, hsteps, hafter⟩ := (inStep_new mode).steps hworlds hbackends hkept
  exact ⟨ρ, hρ, hsteps, hafter⟩

/-- A source that fails after a relation has been made takes a number; without it the later relations have lower
numbers. -/
theorem failures_leave_no_trace_of_relation :
    let w : WorldModel := ⟨[("a", .area (.corridor (.int 1) (.realConst "r"))), ("b", .point (.named "p"))],
      [(Term.realConst "r").gt (.int 0)]⟩
    let before := [Call.populate w]
    let failing := Call.compile .code "and(in(b,a),a)"
    let later := [Call.compile .code "in(b,a)", .compile .user "in(b,a)", .query, .solve fun _ => .ok .unsat]
    let kept := (new .flagOn).steps before ++ (failing.exec ((new .flagOn).after before)).2.steps later
    (∀ c ∈ before ++ failing :: later, ∀ world ∈ c.worlds, ∀ t ∈ world.terms, t.Markless) ∧
      (∀ backend, .solve backend ∈ before ++ failing :: later → Backend.Insensitive backend) ∧
      Step.OmitsFailures ((new .flagOn).steps (before ++ failing :: later)) kept ∧
      ((new .flagOn).after (before ++ failing :: later)).names.issued = 3 ∧
      ((new .flagOn).after (before ++ later)).names.issued = 2 ∧
      ∃ ρ : Nat → Nat, StrictMono ρ ∧
        List.Forall₂ (Step.SameUpTo ρ) ((new .flagOn).steps (kept.map Step.call)) kept ∧
        ((new .flagOn).after (kept.map Step.call)).SameUpTo ρ ((new .flagOn).after (before ++ failing :: later)) := by
  intro w before failing later kept
  have hworlds : ∀ c ∈ before ++ failing :: later, ∀ world ∈ c.worlds, ∀ t ∈ world.terms, t.Markless := by
    have hterms : ∀ t ∈ w.terms, t.Markless := by
      unfold Term.Markless
      decide
    simpa [before, failing, later, Call.worlds] using hterms
  have hbackends : ∀ backend, .solve backend ∈ before ++ failing :: later → Backend.Insensitive backend := by
    intro backend h
    have hbackend : backend = fun _ => .ok .unsat := by simpa [before, failing, later] using h
    subst hbackend
    exact fun _ _ _ _ => rfl
  have hfailed : (failing.exec ((new .flagOn).after before)).1 =
      .error (.compile (.lower (.typeMismatch .and (.expectedBoolean (.value .area)) ⟨0, 3⟩))) := by
    cbv
  have hkept : Step.OmitsFailures ((new .flagOn).steps (before ++ failing :: later)) kept :=
    Step.omitsFailures_append hfailed
  have hissued : ((new .flagOn).after (before ++ failing :: later)).names.issued = 3 := by cbv
  have hissued' : ((new .flagOn).after (before ++ later)).names.issued = 2 := by cbv
  exact ⟨hworlds, hbackends, hkept, hissued, hissued', failures_leave_no_trace .flagOn _ kept hworlds hbackends hkept⟩

end Verifier

end RoadPolicy
