/-
The order of the sources does not matter. A source takes the names that are next when it is compiled,
so in another order its formula binds other names; but which names it takes decides neither whether it
compiles nor in which interpretations its formula is true. What compiling a list of sources makes of a
run is therefore described by the formulas that the sources have in a new run, and a list in another
order has the same ones.
-/
import Mathlib
import RoadPolicy.Proofs.Check.FailedCalls
import RoadPolicy.Proofs.Policy.AdmissibleNames
import RoadPolicy.Proofs.Policy.TypeSoundness
import RoadPolicy.Proofs.Policy.UsedNames

namespace RoadPolicy

/-! ## Runs with admissible values -/

/-- The values of a world model are well-sorted, and no constant of them has a mark. -/
def WorldModel.Admissible (w : WorldModel) : Prop := ∀ b ∈ w.symbols, b.2.Admissible .free

theorem Scenario.admissible_worldModel_iff {sc : Scenario} : sc.worldModel.Admissible ↔ sc.Admissible :=
  ⟨fun h _ ho => h _ (mem_symbols ho), Admissible.symbols⟩

theorem Registry.Admissible.congr {Γ : Signature} {r s : Registry} (hr : r.Admissible Γ)
    (h : ∀ name, s.lookup name = r.lookup name) : s.Admissible Γ := by
  constructor
  · intro name v hv
    exact hr.sorted name v (h name ▸ hv)
  · intro name v hv
    exact hr.unmarked name v (h name ▸ hv)

namespace Call

variable {v : Verifier}

theorem admissible_enact (h : v.registry.Admissible .free) {c : Call} (hc : ∀ w ∈ c.worlds, w.Admissible) :
    (c.enact v).2.registry.Admissible .free := by
  cases c with
  | populate w =>
    exact (h.defineAll .model (hc w List.mem_cons_self)).congr (Registry.lookup_assertAll _ _ _)
  | bind sc =>
    rw [enact]
    split
    · exact h
    · have hsc := Scenario.admissible_worldModel_iff.1 (hc sc.worldModel List.mem_cons_self)
      exact (h.defineAll .code (CodeBindings.admissible_ofScenario hsc v.names)).congr (Registry.lookup_assertAll _ _ _)
  | compile space source =>
    cases space with
    | model => exact h
    | code | user =>
      rw [enact, Verifier.compiling]
      split
      · exact h.congr (Registry.lookup_assertAll _ _ _)
      · exact h
  | solve backend =>
    rw [enact]
    split <;> exact h
  | query | decode => exact h

theorem admissible_exec (h : v.registry.Admissible .free) {c : Call} (hc : ∀ w ∈ c.worlds, w.Admissible) :
    (c.exec v).2.registry.Admissible .free := by
  rcases c.exec_cases v with ⟨e, hexec⟩ | hexec
  · rw [hexec]
    exact h
  · rw [hexec]
    exact admissible_enact h hc

end Call

theorem Verifier.admissible_after {v : Verifier} (h : v.registry.Admissible .free) {calls : List Call}
    (hcalls : ∀ c ∈ calls, ∀ w ∈ c.worlds, w.Admissible) : (v.after calls).registry.Admissible .free := by
  induction calls generalizing v with
  | nil => exact h
  | cons c calls ih =>
    rw [List.forall_mem_cons] at hcalls
    exact ih (Call.admissible_exec h hcalls.1) hcalls.2

/-! ## Names that are taken -/

section

variable {Γ : Signature} {r : Registry} {source : String} {names names' : NameSupply}

/-- A source compiles whatever names are next, or it never does. -/
theorem compile_ok_of_compile_ok (hr : r.Fits Γ) {t : Term} {rest : NameSupply}
    (h : (compile r source).run.run names = (.ok t, rest)) (names' : NameSupply) :
    ∃ u rest', (compile r source).run.run names' = (.ok u, rest') := by
  rcases hparse : parse r.resolves source with err | a
  · rw [run_compile_error hparse] at h
    cases h
  obtain ⟨e, he, rfl⟩ := parseTokens_eq_ok_iff.1 hparse
  have hkind : e.HasKind r .bool := by
    have hlower := lower_formula hr he names
    rw [run_compile hparse] at h
    rcases hrun : (lower r e.arena).run.run names with ⟨err | u, names₁⟩
    · rw [hrun] at h
      cases h
    · rw [hrun] at hlower
      exact hlower.2
  have hlower := lower_formula hr he names'
  rcases hrun : (lower r e.arena).run.run names' with ⟨err | u, rest'⟩
  · rw [hrun] at hlower
    exact absurd hkind hlower
  · refine ⟨u.simplify, rest', ?_⟩
    rw [run_compile hparse, hrun]

theorem reading_of_compile (hr : r.Admissible Γ) {t : Term} {rest : NameSupply}
    (h : (compile r source).run.run names = (.ok t, rest)) : ∃ e : Expression, parse r.resolves source = .ok e.arena ∧
      ∀ I, (e.tree 0).reading r I = some (.truth (I.Satisfies t)) := by
  obtain ⟨e, u, hparse, hsort, hlower, rfl⟩ := compile_eq_ok h
  obtain ⟨hsound, hread⟩ := Tree.lower_means hr (e.tree 0) names rest _ hlower
  have hkeep := u.simplify_replaces (Operand.sound_term.1 hsound)
  refine ⟨e, hparse, fun I => ?_⟩
  rw [hread, Operand.reading_formula hsort, Interpretation.Satisfies, Interpretation.Satisfies, hkeep.meaning]

/-- The formulas of a source are true in the same interpretations, whatever names they bind. -/
theorem satisfies_compile_iff (hr : r.Admissible Γ) {t u : Term} {rest rest' : NameSupply}
    (ht : (compile r source).run.run names = (.ok t, rest)) (hu : (compile r source).run.run names' = (.ok u, rest'))
    (I : Interpretation) : I.Satisfies t ↔ I.Satisfies u := by
  obtain ⟨e, hparse, hread⟩ := reading_of_compile hr ht
  obtain ⟨e', hparse', hread'⟩ := reading_of_compile hr hu
  -- both are true exactly if the direct reading of the tree is, and the names play no part in the tree
  have harena : e.arena = e'.arena := Except.ok.inj (hparse.symm.trans hparse')
  have htree : e.tree 0 = e'.tree 0 := Option.some.inj (e.tree?_arena.symm.trans (harena ▸ e'.tree?_arena))
  have hsame : some (Reading.truth (I.Satisfies t)) = some (.truth (I.Satisfies u)) := by
    rw [← hread, htree, hread']
  exact iff_of_eq (Reading.truth.inj (Option.some.inj hsame))

/-- The formula of a source in a run that has taken no names yet. -/
def Registry.formula? (r : Registry) (source : String) : Option Term :=
  ((compile r source).run.run .initial).1.toOption

/-- Whatever names are next, a source compiles to a formula that is true where its formula in a new run is. -/
theorem compile_formula? (hr : r.Admissible Γ) (source : String) (names : NameSupply) :
    match (compile r source).run.run names with
    | (.ok t, _) => ∃ u, r.formula? source = some u ∧ ∀ I : Interpretation, I.Satisfies t ↔ I.Satisfies u
    | (.error _, _) => r.formula? source = none := by
  unfold Registry.formula?
  rcases hnew : (compile r source).run.run .initial with ⟨err | u, rest⟩
  · rcases hrun : (compile r source).run.run names with ⟨err' | t, rest'⟩
    · rfl
    · obtain ⟨u, rest, hok⟩ := compile_ok_of_compile_ok hr.fits hrun .initial
      rw [hnew] at hok
      cases hok
  · rcases hrun : (compile r source).run.run names with ⟨err' | t, rest'⟩
    · obtain ⟨t, rest', hok⟩ := compile_ok_of_compile_ok hr.fits hnew names
      rw [hrun] at hok
      cases hok
    · exact ⟨u, rfl, satisfies_compile_iff hr hrun hnew⟩

end

/-! ## Compiling sources -/

/-- Where a source comes from: the policy of the code or the properties of the user. -/
inductive Side where
  | code | user
deriving DecidableEq, Repr

namespace Side

def space : Side → Space
  | code => .code
  | user => .user

def call : Side → StagedCall
  | code => .compileCode
  | user => .compileUser

/-- The stage that a source leads to. -/
def next : Side → Stage
  | code => .codePopulated
  | user => .userPopulated

theorem next_mem_allowed (p : Side) : p.next ∈ p.call.allowed := by
  cases p <;> decide

theorem space_injective : Function.Injective space := by
  intro p q
  cases p <;> cases q <;> decide

theorem exec_compile (p : Side) (source : String) (v : Verifier) :
    (Call.compile p.space source).exec v =
      if v.stage ∈ p.call.allowed then v.compiling p.space p.next source
      else (.error (.usage (.wrongStage p.call v.stage)), v) := by
  have hstaged : (Call.compile p.space source).staged? = some p.call := by cases p <;> rfl
  have henact : (Call.compile p.space source).enact v = v.compiling p.space p.next source := by cases p <;> rfl
  rw [Call.exec_eq, hstaged]
  by_cases h : v.stage ∈ p.call.allowed
  · simp only [Verifier.require, if_pos h, henact]
  · simp only [Verifier.require, if_neg h]

end Side

variable {r : Registry} {p : Side} {v w : Verifier}

/-- What compiling a source makes of a run in which names denote what they denote in a registry. -/
inductive Verifier.Takes (r : Registry) (p : Side) (source : String) (v : Verifier) :
    Except VerifyError Reply × Verifier → Prop
  | refused (e : VerifyError) : v.stage ∉ p.call.allowed → Takes r p source v (.error e, v)
  | failed (e : VerifyError) (names : NameSupply) : v.stage ∈ p.call.allowed → r.formula? source = none →
      Takes r p source v (.error e, { v with names })
  | compiled (t u : Term) (names : NameSupply) : v.stage ∈ p.call.allowed → r.formula? source = some u →
      (∀ I : Interpretation, I.Satisfies t ↔ I.Satisfies u) →
      Takes r p source v (.ok .done, v.compiled p.space p.next t names)

namespace Verifier

theorem takes (hr : r.Admissible .free) (hlookup : ∀ name, v.registry.lookup name = r.lookup name) (p : Side)
    (source : String) : v.Takes r p source ((Call.compile p.space source).exec v) := by
  rw [p.exec_compile]
  by_cases hallowed : v.stage ∈ p.call.allowed
  · rw [if_pos hallowed, compiling, compile_congr fun w _ => hlookup w]
    have hformula := compile_formula? hr source v.names
    rcases hrun : (RoadPolicy.compile r source).run.run v.names with ⟨err | t, names⟩
    · rw [hrun] at hformula
      exact .failed _ names hallowed hformula
    · rw [hrun] at hformula
      obtain ⟨u, hu, hsatisfies⟩ := hformula
      exact .compiled t u names hallowed hu hsatisfies
  · rw [if_neg hallowed]
    exact .refused _ hallowed

theorem Takes.answer_iff {source : String} {x : Except VerifyError Reply × Verifier} (h : v.Takes r p source x) :
    (∃ reply, x.1 = .ok reply) ↔ v.stage ∈ p.call.allowed ∧ (r.formula? source).isSome := by
  cases h with
  | refused e hrefused => simp [hrefused]
  | failed e names hallowed hnone => simp [hnone]
  | compiled t u names hallowed hsome => simp [hallowed, hsome]

/-- The formulas that a side brings into a run, as they are in a new run. -/
def brought (r : Registry) (v : Verifier) (p : Side) (sources : List String) : List Term :=
  if v.stage ∈ p.call.allowed then sources.filterMap r.formula? else []

/-- What compiling sources makes of a run: the formulas that they bring in stand in their space, up to the names that
are bound in them, and the stage moves on if there are any. -/
structure Gathers (r : Registry) (p : Side) (sources : List String) (v w : Verifier) : Prop where
  mode : w.mode = v.mode
  lookup : ∀ name, w.registry.lookup name = v.registry.lookup name
  stage : w.stage = if brought r v p sources = [] then v.stage else p.next
  elsewhere : ∀ space ≠ p.space, w.registry.formulas space = v.registry.formulas space
  satisfies : ∀ I : Interpretation, I.Satisfies (.or (w.registry.formulas p.space)) ↔
    I.Satisfies (.or (v.registry.formulas p.space)) ∨ I.Satisfies (.or (brought r v p sources))

namespace Gathers

variable {sources later : List String} {u : Verifier}

/-- Sources that bring nothing in can only use up names. -/
theorem of_brought_eq_nil (h : brought r v p sources = []) (names : NameSupply) :
    Gathers r p sources v { v with names } := by
  refine ⟨rfl, fun _ => rfl, ?_, fun _ _ => rfl, fun I => ?_⟩
  · rw [if_pos h]
  · simp [h]

theorem refl (p : Side) (v : Verifier) : Gathers r p [] v v := by
  refine of_brought_eq_nil ?_ v.names
  rw [brought]
  split <;> rfl

/-- Further sources of the same side are refused exactly if these are. -/
theorem allowed_iff (h : Gathers r p sources v w) : w.stage ∈ p.call.allowed ↔ v.stage ∈ p.call.allowed := by
  rw [h.stage]
  split
  · rfl
  · rename_i hsome
    -- nothing is brought into a run whose stage does not allow it
    refine iff_of_true p.next_mem_allowed ?_
    by_contra hrefused
    exact hsome (if_neg hrefused)

theorem trans (h : Gathers r p sources u v) (h' : Gathers r p later v w) : Gathers r p (sources ++ later) u w := by
  have hbrought : brought r u p (sources ++ later) = brought r u p sources ++ brought r v p later := by
    simp only [brought, h.allowed_iff]
    split
    · exact List.filterMap_append
    · rfl
  refine ⟨h'.mode.trans h.mode, fun name => (h'.lookup name).trans (h.lookup name), ?_, fun space hspace => ?_,
    fun I => ?_⟩
  · rw [h'.stage, h.stage, hbrought]
    by_cases hfirst : brought r u p sources = []
    · simp [hfirst]
    · simp [hfirst]
  · rw [h'.elsewhere space hspace, h.elsewhere space hspace]
  · rw [h'.satisfies, h.satisfies, hbrought]
    simp only [Interpretation.satisfies_or, List.mem_append, or_and_right, exists_or, or_assoc]

end Gathers

/-- One source. -/
theorem Takes.gathers {source : String} {x : Except VerifyError Reply × Verifier} (h : v.Takes r p source x) :
    Gathers r p [source] v x.2 := by
  cases h with
  | refused e hrefused => exact .of_brought_eq_nil (if_neg hrefused) v.names
  | failed e names hallowed hformula => exact .of_brought_eq_nil (by simp [brought, hformula]) names
  | compiled t u names hallowed hformula hsatisfies =>
    have hone : brought r v p [source] = [u] := by simp [brought, hallowed, hformula]
    refine ⟨rfl, v.registry.lookup_assertAll _ _, ?_, fun space hspace => ?_, fun I => ?_⟩
    · rw [hone]
      rfl
    · simp [Verifier.compiled, Ne.symm hspace]
    · simp [Verifier.compiled, hone, or_and_right, exists_or, hsatisfies]

/-- All sources of a side. -/
theorem gathers (hr : r.Admissible .free) (hlookup : ∀ name, v.registry.lookup name = r.lookup name) (p : Side)
    (sources : List String) : Gathers r p sources v (v.after (sources.map (.compile p.space))) := by
  induction sources generalizing v with
  | nil => exact .refl p v
  | cons source sources ih =>
    have hone := (takes hr hlookup p source).gathers
    exact hone.trans (ih fun name => (hone.lookup name).trans (hlookup name))

/-- Each source gets an answer that depends on its side and on itself only. -/
theorem answer_of_mem_steps (hr : r.Admissible .free) (hlookup : ∀ name, v.registry.lookup name = r.lookup name)
    (p : Side) {sources : List String} {s : Step} (hs : s ∈ v.steps (sources.map (.compile p.space))) :
    ∃ source ∈ sources, s.call = .compile p.space source ∧
      ((∃ reply, s.answer = .ok reply) ↔ v.stage ∈ p.call.allowed ∧ (r.formula? source).isSome) := by
  induction sources generalizing v with
  | nil => cases hs
  | cons source sources ih =>
    have htakes := takes hr hlookup p source
    rcases List.mem_cons.1 hs with rfl | hs
    · exact ⟨source, List.mem_cons_self, rfl, htakes.answer_iff⟩
    · have hone := htakes.gathers
      obtain ⟨other, hmem, hcall, hanswer⟩ := ih (fun name => (hone.lookup name).trans (hlookup name)) hs
      exact ⟨other, List.mem_cons_of_mem _ hmem, hcall, hanswer.trans (and_congr_left' hone.allowed_iff)⟩

/-! ## Runs in two orders -/

/-- The two runs are in the same state, up to formulas of the code and of the user that are true in the same
interpretations. -/
structure Alike (v w : Verifier) : Prop where
  mode : w.mode = v.mode
  stage : w.stage = v.stage
  lookup : ∀ name, w.registry.lookup name = v.registry.lookup name
  model : w.registry.formulas .model = v.registry.formulas .model
  satisfies : ∀ (p : Side) (I : Interpretation),
    I.Satisfies (.or (w.registry.formulas p.space)) ↔ I.Satisfies (.or (v.registry.formulas p.space))

namespace Alike

theorem refl (v : Verifier) : v.Alike v := ⟨rfl, rfl, fun _ => rfl, rfl, fun _ _ => Iff.rfl⟩

theorem brought_perm (h : v.Alike w) {xs ys : List String} (hperm : xs.Perm ys) :
    (brought r v p xs).Perm (brought r w p ys) := by
  rw [brought, brought, h.stage]
  split
  · exact hperm.filterMap _
  · exact .nil

/-- Alike runs stay alike when sources of one side are compiled in any order. -/
theorem compile (h : v.Alike w) (hv : v.registry.Admissible .free) (p : Side) {xs ys : List String}
    (hperm : xs.Perm ys) :
    (v.after (xs.map (.compile p.space))).Alike (w.after (ys.map (.compile p.space))) := by
  have hone := gathers hv (fun _ => rfl) p xs
  have hother := gathers hv h.lookup p ys
  have hbrought : (brought v.registry v p xs).Perm (brought v.registry w p ys) := h.brought_perm hperm
  have hnil : brought v.registry w p ys = [] ↔ brought v.registry v p xs = [] :=
    ⟨fun hys => (hys ▸ hbrought).eq_nil, fun hxs => (hxs ▸ hbrought).nil_eq.symm⟩
  refine ⟨?_, ?_, fun name => ?_, ?_, fun q I => ?_⟩
  · rw [hother.mode, h.mode, hone.mode]
  · simp only [hother.stage, hone.stage, h.stage, hnil]
  · rw [hother.lookup, h.lookup, hone.lookup]
  · have hmodel : Space.model ≠ p.space := by cases p <;> decide
    rw [hother.elsewhere _ hmodel, h.model, hone.elsewhere _ hmodel]
  · by_cases hq : q = p
    · subst hq
      rw [hother.satisfies, hone.satisfies, h.satisfies]
      simp only [Interpretation.satisfies_or, hbrought.mem_iff]
    · have hspace : q.space ≠ p.space := fun heq => hq (Side.space_injective heq)
      rw [hother.elsewhere _ hspace, hone.elsewhere _ hspace, h.satisfies]

theorem satisfies_conjuncts (h : v.Alike w) (I : Interpretation) :
    (∀ t ∈ v.conjuncts, I.Satisfies t) ↔ ∀ t ∈ w.conjuncts, I.Satisfies t := by
  have hcode := h.satisfies .code I
  have huser := h.satisfies .user I
  simp only [Side.space] at hcode huser
  rw [conjuncts, conjuncts, h.mode, h.model]
  cases v.mode <;>
    simp only [List.forall_mem_cons, List.not_mem_nil, IsEmpty.forall_iff, implies_true, and_true,
      Interpretation.satisfies_not, hcode, huser]

end Alike

theorem after_append (v : Verifier) (cs ds : List Call) : v.after (cs ++ ds) = (v.after cs).after ds := by
  induction cs generalizing v with
  | nil => rfl
  | cons c cs ih => exact ih _

theorem steps_append (v : Verifier) (cs ds : List Call) : v.steps (cs ++ ds) = v.steps cs ++ (v.after cs).steps ds := by
  induction cs generalizing v with
  | nil => rfl
  | cons c cs ih => exact congrArg (_ :: ·) (ih _)

/-- The calls that compile sources, first those of the code and then those of the user. -/
def compileCalls (code user : List String) : List Call := code.map (.compile .code) ++ user.map (.compile .user)

/-- The run before the sources of a side are compiled. -/
def beforeSide (v : Verifier) (code : List String) : Side → Verifier
  | .code => v
  | .user => v.after (code.map (.compile .code))

/-- The answer to a source depends on the source and on the stage before the sources of its side. -/
theorem answer_compileCalls (hv : v.registry.Admissible .free) {code user : List String} {s : Step}
    (hs : s ∈ v.steps (compileCalls code user)) :
    ∃ (p : Side) (source : String), s.call = .compile p.space source ∧
      ((∃ reply, s.answer = .ok reply) ↔
        (v.beforeSide code p).stage ∈ p.call.allowed ∧ (v.registry.formula? source).isSome) := by
  rw [compileCalls, steps_append, List.mem_append] at hs
  rcases hs with hs | hs
  · obtain ⟨source, -, hcall, hanswer⟩ := answer_of_mem_steps hv (fun _ => rfl) .code hs
    exact ⟨.code, source, hcall, hanswer⟩
  · have hlookup := (gathers hv (fun _ => rfl) .code code).lookup
    obtain ⟨source, -, hcall, hanswer⟩ := answer_of_mem_steps hv hlookup .user hs
    exact ⟨.user, source, hcall, hanswer⟩

theorem query_eq_ok_iff {query : List Term} :
    v.query = .ok query ↔ v.stage ∈ StagedCall.query.allowed ∧ query = v.conjuncts := by
  rw [Verifier.query, require]
  by_cases h : v.stage ∈ StagedCall.query.allowed
  · rw [if_pos h]
    constructor
    · rintro ⟨⟩
      exact ⟨h, rfl⟩
    · rintro ⟨-, rfl⟩
      rfl
  · rw [if_neg h]
    constructor
    · rintro ⟨⟩
    · rintro ⟨hallowed, -⟩
      exact absurd hallowed h

/-- A source of the user that compiles takes the run to the stage in which there is a query. -/
theorem stage_of_compiled_user (hv : v.registry.Admissible .free) {code user : List String} (hne : user ≠ [])
    (hall : ∀ s ∈ v.steps (compileCalls code user), ∃ reply, s.answer = .ok reply) :
    (v.after (compileCalls code user)).stage = .userPopulated := by
  obtain ⟨source, rest, rfl⟩ := List.exists_cons_of_ne_nil hne
  have hlookup := (gathers hv (fun _ => rfl) .code code).lookup
  have hgathers := gathers hv hlookup .user (source :: rest)
  rw [compileCalls, steps_append, List.forall_mem_append] at hall
  obtain ⟨hallowed, hformula⟩ := (takes hv hlookup .user source).answer_iff.1 (hall.2 _ List.mem_cons_self)
  obtain ⟨u, hu⟩ := Option.isSome_iff_exists.1 hformula
  have hbrought : brought v.registry (v.after (code.map (.compile Side.code.space))) .user (source :: rest) ≠ [] := by
    rw [brought, if_pos hallowed, List.filterMap_cons_some hu]
    exact List.cons_ne_nil _ _
  rw [compileCalls, after_append]
  exact hgathers.stage.trans (if_neg hbrought)

/-- In which order the sources of a side are compiled does not matter, after whatever calls. A source compiles in one
order exactly if it does in the other; if there is a query after the one order, there is one after the other, and they
are true in the same interpretations. If every source compiles and the user has one, there is a query. -/
theorem sources_in_any_order (mode : ActionMode) (calls : List Call)
    (hworlds : ∀ c ∈ calls, ∀ w ∈ c.worlds, w.Admissible) {code code' user user' : List String}
    (hcode : code.Perm code') (huser : user.Perm user') :
    let v := (new mode).after calls
    let one := compileCalls code user
    let other := compileCalls code' user'
    (∀ s ∈ v.steps one, ∀ t ∈ v.steps other, s.call = t.call →
      ((∃ reply, s.answer = .ok reply) ↔ ∃ reply, t.answer = .ok reply)) ∧
    (∀ query, (v.after one).query = .ok query → ∃ query', (v.after other).query = .ok query' ∧
      ∀ I : Interpretation, (∀ t ∈ query, I.Satisfies t) ↔ ∀ t ∈ query', I.Satisfies t) ∧
    (user ≠ [] → (∀ s ∈ v.steps one, ∃ reply, s.answer = .ok reply) → ∃ query, (v.after one).query = .ok query) := by
  intro v one other
  have hv : v.registry.Admissible .free := admissible_after Registry.admissible_empty hworlds
  have hmid : (v.after (code.map (.compile .code))).Alike (v.after (code'.map (.compile .code))) :=
    (Alike.refl v).compile hv .code hcode
  have hend : (v.after one).Alike (v.after other) := by
    have hcodes : (v.after (code.map (.compile .code))).registry.Admissible .free :=
      hv.congr (gathers hv (fun _ => rfl) .code code).lookup
    simp only [one, other, compileCalls, after_append]
    exact hmid.compile hcodes .user huser
  refine ⟨fun s hs t ht hcall => ?_, fun query hquery => ?_, fun hne hall => ?_⟩
  · obtain ⟨p, source, hs, hanswer⟩ := answer_compileCalls hv hs
    obtain ⟨q, source', ht, hanswer'⟩ := answer_compileCalls hv ht
    obtain ⟨hspace, rfl⟩ := Call.compile.inj (hs.symm.trans (hcall.trans ht))
    obtain rfl := Side.space_injective hspace
    have hstage : (v.beforeSide code p).stage = (v.beforeSide code' p).stage := by
      cases p with
      | code => rfl
      | user => exact hmid.stage.symm
    rw [hanswer, hanswer', hstage]
  · obtain ⟨hallowed, rfl⟩ := query_eq_ok_iff.1 hquery
    exact ⟨(v.after other).conjuncts, query_eq_ok_iff.2 ⟨hend.stage ▸ hallowed, rfl⟩, hend.satisfies_conjuncts⟩
  · have hstage := stage_of_compiled_user hv hne hall
    refine ⟨_, query_eq_ok_iff.2 ⟨?_, rfl⟩⟩
    rw [hstage]
    decide

theorem sources_in_any_order_bound :
    let sc := Scenario.basic {}
    let w : WorldModel := ⟨[("ego", .area sc.ego.boundary), ("lane", .area Scenario.laneBoundary),
      ("road", .area Scenario.roadBoundary)], Scenario.widthConstraints⟩
    let calls := [Call.populate w, .bind sc]
    let code := ["in(ego, lane)", "cross(lane, road)"]
    let user := ["in(lane, road)", "is_near_destination"]
    let v := (new .flagOff).after calls
    let one := compileCalls code user
    let other := compileCalls code.reverse user.reverse
    (∀ c ∈ calls, ∀ w ∈ c.worlds, w.Admissible) ∧ code.Perm code.reverse ∧ user.Perm user.reverse ∧
      v.stage = .modelPopulated ∧ v.codeBound = true ∧ (∀ s ∈ v.steps one, ∃ reply, s.answer = .ok reply) ∧
      ((v.after other).registry.formulas .code).reverse.map Term.text ≠
        ((v.after one).registry.formulas .code).map Term.text ∧
      ∃ query query', (v.after one).query = .ok query ∧ (v.after other).query = .ok query' ∧
        ∀ I : Interpretation, (∀ t ∈ query, I.Satisfies t) ↔ ∀ t ∈ query', I.Satisfies t := by
  intro sc w calls code user v one other
  have hsc : sc.Admissible := Scenario.admissible_basic {}
  have hw : w.Admissible := by
    have hego := TrafficObject.admissible_features (hsc sc.ego List.mem_cons_self)
      (".boundary", .area sc.ego.boundary) (by simp [Scenario.featureSymbols])
    have hstrips := Scenario.admissible_strips
    rw [List.forall_mem_cons, List.forall_mem_singleton] at hstrips
    simp [w, WorldModel.Admissible, hego, hstrips]
  have hworlds : ∀ c ∈ calls, ∀ w ∈ c.worlds, w.Admissible := by
    simp [calls, Call.worlds, hw, Scenario.admissible_worldModel_iff.2 hsc]
  have hcode : code.Perm code.reverse := code.reverse_perm.symm
  have huser : user.Perm user.reverse := user.reverse_perm.symm
  have hstart : v.stage = .modelPopulated ∧ v.codeBound = true := by decide +kernel
  have hall : ∀ s ∈ v.steps one, ∃ reply, s.answer = .ok reply := by
    have hok : (v.steps one).all (fun s => s.answer.toBool) = true := by decide +kernel
    intro s hs
    have hs := List.all_eq_true.1 hok s hs
    rcases hanswer : s.answer with e | reply
    · rw [hanswer] at hs
      cases hs
    · exact ⟨reply, rfl⟩
  have htexts : ((v.after other).registry.formulas .code).reverse.map Term.text ≠
      ((v.after one).registry.formulas .code).map Term.text := by decide +kernel
  obtain ⟨-, hqueries, hquery⟩ := sources_in_any_order .flagOff calls hworlds hcode huser
  obtain ⟨query, hone⟩ := hquery (by decide) hall
  obtain ⟨query', hother, hsame⟩ := hqueries query hone
  exact ⟨hworlds, hcode, huser, hstart.1, hstart.2, hall, htexts, query, query', hone, hother, hsame⟩

end Verifier

end RoadPolicy
