/-
The bound names of a run. Every quantifier of a registry binds the two coordinates of one point,
whose number was taken before, and stands in no other quantifier; these names are free nowhere. The
relations of a run are numbered in the order in which they are made, so no two share a number, and
nothing else takes one.
-/
import Mathlib
import RoadPolicy.Proofs.Check.TidyRuns
import RoadPolicy.Proofs.Policy.Applications

namespace RoadPolicy

/-! ## The discipline -/

/-- Outside of all quantifiers, the point of a number below a limit may be bound. -/
def Discipline.points (limit : Nat) : Discipline := fun outer binders =>
  outer = [] ∧ ∃ n < limit, binders = Point.binders (NameSupply.nextPoint ⟨n⟩)

theorem disciplines_points : Disciplines .none .points where
  figures := fun _ _ _ _ => False.elim
  fresh := fun n => ⟨rfl, n, Nat.lt_succ_self n, rfl⟩
  mono := by
    rintro n m outer binders hle ⟨houter, i, hi, hbinders⟩
    exact ⟨houter, i, hi.trans_le hle, hbinders⟩

section

variable {limit : Nat} {t : Term}

theorem Term.Tidy.mem_coordinates (h : t.Tidy (.points limit) []) {name : String} (hname : name ∈ t.boundNames) :
    ∃ n < limit, name ∈ coordinates n := by
  obtain ⟨outer, binders, ⟨-, n, hn, rfl⟩, hname⟩ := h.boundNames hname
  exact ⟨n, hn, hname⟩

/-- No quantifier stands inside of another one. -/
theorem Term.Tidy.unnested (h : t.Tidy (.points limit) []) {q : Quantifier} {binders : List Binder} {body : Term}
    (hmem : .quantified q binders body ∈ t.subterms) : body.quantifierFree = true := by
  obtain ⟨outer, ⟨rfl, n, -, rfl⟩, hbody⟩ := h.quantified_mem hmem
  refine hbody.quantifierFree fun binders' h' => ?_
  exact absurd h'.1 (by simp [Point.binders])

/-- The coordinates of points are free nowhere. -/
theorem Term.Tidy.notFree {D : Discipline} (h : t.Tidy D []) {n : Nat} {name : String} (hname : name ∈ coordinates n) :
    t.NotFree name := by
  intro s hs
  exact h.free _ hs (mark_mem_coordinates hname)

end

/-! ## Registries and runs -/

/-- All formulas of a registry and all terms of its values. -/
def Registry.terms (r : Registry) : List Term :=
  Space.all.flatMap fun space => r.formulas space ++ (r.symbols space).entries.flatMap (·.2.terms)

theorem Registry.Tidy.terms {F D : Discipline} {r : Registry} (h : r.Tidy F D) : ∀ t ∈ r.terms, t.Tidy D [] := by
  intro t ht
  obtain ⟨space, -, ht⟩ := List.mem_flatMap.1 ht
  rcases List.mem_append.1 ht with ht | ht
  · exact h.formulas space t ht
  · obtain ⟨⟨name, v⟩, hv, ht⟩ := List.mem_flatMap.1 ht
    exact (h.values space name v (Dict.get?_eq_some_iff.2 hv)).terms t ht

namespace Call

/-- The relations that a call makes when its stage allows it, also if it fails later: those of spatial
operators in a source, and those among the bindings of the code policy. -/
def relating (v : Verifier) : Call → List Term
  | bind sc => if v.codeBound then [] else ((CodeBindings.ofScenario sc).run v.names).1.relations
  | compile .code source | compile .user source =>
    (applicationsIn v.registry source v.names).filterMap Application.relation?
  | _ => []

/-- The relations that a call makes: none in a wrong stage. -/
def relations (c : Call) (v : Verifier) : List Term :=
  match c.staged? with
  | none => []
  | some k =>
    match v.require k with
    | .ok () => c.relating v
    | .error _ => []

end Call

/-- The relations that some calls make, in their order. -/
def Verifier.relations (v : Verifier) : List Call → List Term
  | [] => []
  | c :: cs => c.relations v ++ (c.exec v).2.relations cs

section

variable {D : Nat → Discipline} {v : Verifier}

theorem Call.numbered_compiling (hD : Disciplines .none D) (h : v.Tidy .none D) (space : Space) (next : Stage)
    (source : String) :
    Numbered v.names.issued ((applicationsIn v.registry source v.names).filterMap Application.relation?)
      (v.compiling space next source).2.names.issued := by
  have hcompile := numbered_compile hD h source
  unfold Verifier.compiling
  rcases hrun : (RoadPolicy.compile v.registry source).run.run v.names with ⟨e | formula, names⟩
  · rw [hrun] at hcompile
    exact hcompile
  · rw [hrun] at hcompile
    exact hcompile

theorem Call.numbered_relating (hD : Disciplines .none D) (h : v.Tidy .none D) {c : Call}
    (hc : ∀ w ∈ c.worlds, ∀ t ∈ w.terms, t.Tidy .none []) :
    Numbered v.names.issued (c.relating v) (c.enact v).2.names.issued := by
  cases c with
  | bind sc =>
    have hsc := Scenario.tidy_of_worldModel (hc sc.worldModel (List.mem_singleton_self _))
    rw [relating, enact]
    split
    · exact numbered_nil _
    · exact CodeBindings.numbered_ofScenario hsc v.names
  | compile space source =>
    cases space with
    | model => exact numbered_nil _
    | code => exact numbered_compiling hD h .code .codePopulated source
    | user => exact numbered_compiling hD h .user .userPopulated source
  | solve backend =>
    rw [enact]
    split <;> exact numbered_nil _
  | populate | query | decode => exact numbered_nil _

/-- One call takes as many names as it makes relations. -/
theorem Call.numbered_relations (hD : Disciplines .none D) (h : v.Tidy .none D) {c : Call}
    (hc : ∀ w ∈ c.worlds, ∀ t ∈ w.terms, t.Tidy .none []) :
    Numbered v.names.issued (c.relations v) (c.exec v).2.names.issued := by
  have hwork := numbered_relating hD h hc
  unfold relations
  rw [exec_eq]
  rcases hk : c.staged? with _ | k
  · -- only a compilation into the model is free of stages
    cases c with
    | compile space source =>
      cases space with
      | model => exact numbered_nil _
      | code | user => cases hk
    | populate | bind | query | solve | decode => cases hk
  · dsimp only
    rcases v.require k with e | ⟨⟩
    · exact numbered_nil _
    · exact hwork

/-- The relations of a whole run are numbered one after the other. -/
theorem Verifier.Tidy.numbered (hD : Disciplines .none D) (h : v.Tidy .none D) {calls : List Call}
    (hcalls : ∀ c ∈ calls, ∀ w ∈ c.worlds, ∀ t ∈ w.terms, t.Tidy .none []) :
    Numbered v.names.issued (v.relations calls) (v.after calls).names.issued := by
  induction calls generalizing v with
  | nil => exact numbered_nil _
  | cons c cs ih =>
    rw [List.forall_mem_cons] at hcalls
    exact (Call.numbered_relations hD h hcalls.1).append (ih (Call.tidyStep_exec hD h hcalls.1).tidy hcalls.2)

end

namespace Verifier

/-- Binders are fresh. After any calls over scenarios without quantifiers and marked constants: every
name bound in the registry is a coordinate of a point whose number has been taken, and quantifiers
are not nested; no coordinate of a point is free in a formula; the relations that were made, in
whatever compilation, bind the points of the numbers taken, each its own; an operator that refuses its
operands and a source that cannot be read take no number. -/
theorem binders_fresh (mode : ActionMode) (calls : List Call)
    (hworlds : ∀ c ∈ calls, ∀ w ∈ c.worlds, ∀ t ∈ w.terms, t.quantifierFree = true ∧ t.Unmarked) :
    let v := (new mode).after calls
    let made := (new mode).relations calls
    (∀ t ∈ v.registry.terms, (∀ name ∈ t.boundNames, ∃ n < v.names.issued, name ∈ coordinates n) ∧
      ∀ q binders body, .quantified q binders body ∈ t.subterms → body.quantifierFree = true) ∧
    (∀ space, ∀ t ∈ v.registry.formulas space, ∀ n, ∀ name ∈ coordinates n, t.NotFree name) ∧
    (made.length = v.names.issued ∧ made.map Term.boundNames = (List.range v.names.issued).map coordinates ∧
      (made.map Term.boundNames).Nodup) ∧
    (∀ (op : Operator) (args : List Operand) (names names' : NameSupply) (e : ApplyError),
      (op.apply args).run.run names = (.error e, names') → names' = names) ∧
    (∀ (source : String) (e : ParseError), parse v.registry.resolves source = .error e →
      (compile v.registry source).run.run v.names = (.error (.parse e), v.names)) := by
  intro v made
  have hplain : ∀ c ∈ calls, ∀ w ∈ c.worlds, ∀ t ∈ w.terms, t.Tidy .none [] := fun c hc w hw t ht =>
    Term.tidy_of_quantifierFree (hworlds c hc w hw t ht).1 (Term.unmarked_iff.1 (hworlds c hc w hw t ht).2)
  have htidy : v.registry.Tidy .none (.points v.names.issued) := (tidy_new mode).after disciplines_points hplain
  have hnumbered : Numbered 0 made v.names.issued := (tidy_new mode).numbered disciplines_points hplain
  have hlength : made.length = v.names.issued := by rw [hnumbered.1, Nat.zero_add]
  have hmade : made.map Term.boundNames = (List.range v.names.issued).map coordinates := by
    rw [hnumbered.2, hlength, List.range_eq_range']
  refine ⟨fun t ht => ⟨fun name => (htidy.terms t ht).mem_coordinates, fun q binders body => (htidy.terms t ht).unnested⟩,
    fun space t ht n name => (htidy.formulas space t ht).notFree, ⟨hlength, hmade, ?_⟩,
    fun op args names names' e => Operator.names_of_refused, fun source e h => run_compile_error h v.names⟩
  rw [hmade]
  exact List.nodup_range.map coordinates_injective

/-- A source that fails after a relation has been made still takes its number. -/
theorem binders_fresh_two_sources :
    let w : WorldModel := ⟨[("a", .area (.corridor (.int 1) (.realConst "r"))), ("b", .point (.named "p"))],
      [(Term.realConst "r").gt (.int 0)]⟩
    let calls := [Call.populate w, .compile .code "and(in(b,a),a)", .compile .code "in(b,a)"]
    (∀ c ∈ calls, ∀ w ∈ c.worlds, ∀ t ∈ w.terms, t.quantifierFree = true ∧ t.Unmarked) ∧
      ((new .flagOn).relations calls).map Term.boundNames = [["q!0_l", "q!0_s"], ["q!1_l", "q!1_s"]] := by
  intro w calls
  have hworlds : ∀ c ∈ calls, ∀ w ∈ c.worlds, ∀ t ∈ w.terms, t.quantifierFree = true ∧ t.Unmarked := by
    have hterms : ∀ t ∈ w.terms, t.quantifierFree = true ∧ t.Unmarked := by
      simp only [Term.unmarked_iff]
      decide
    simp only [calls, List.forall_mem_cons, Call.worlds]
    exact ⟨⟨hterms, List.forall_mem_nil _⟩, List.forall_mem_nil _, List.forall_mem_nil _, List.forall_mem_nil _⟩
  have hissued : ((new .flagOn).after calls).names.issued = 2 := by cbv
  refine ⟨hworlds, ?_⟩
  rw [(binders_fresh .flagOn calls hworlds).2.2.1.2.1, hissued]
  rfl

end Verifier

end RoadPolicy
