/-
Runs keep their registry tidy. Each call is described by one equation: it checks the stage and then
does its work. Whatever is called, the formulas and values of the registry keep to the discipline
for the names taken so far, as long as the scenarios do.
-/
import RoadPolicy.Proofs.Check.RunLaw
import RoadPolicy.Proofs.Policy.TidyCompile

namespace RoadPolicy

/-! ## Calls by equations -/

namespace Verifier

/-- A run with its model populated. -/
def populated (v : Verifier) (w : WorldModel) : Verifier :=
  { v with
    registry := (v.registry.defineAll .model w.symbols).assertAll .model w.invariants
    stage := .modelPopulated }

/-- What compiling a source into a space does to a run. -/
def compiling (v : Verifier) (space : Space) (next : Stage) (source : String) : Except VerifyError Reply × Verifier :=
  match (compile v.registry source).run.run v.names with
  | (.ok formula, names) => (.ok .done, v.compiled space next formula names)
  | (.error e, names) => (.error (.compile e), { v with names })

end Verifier

namespace Call

/-- What a call does in a stage that allows it. -/
def enact (v : Verifier) : Call → Except VerifyError Reply × Verifier
  | populate w => (.ok .done, v.populated w)
  | bind sc => if v.codeBound then (.error (.usage .boundTwice), v) else (.ok .done, v.bound sc)
  | compile .model _ => (.error (.usage .modelIsFixed), v)
  | compile .code source => v.compiling .code .codePopulated source
  | compile .user source => v.compiling .user .userPopulated source
  | query => (.ok (.formulas v.conjuncts), v)
  | solve backend =>
    match backend v.conjuncts with
    | .ok o => (.ok (.verdict o.verdict), { v with outcome := some o, stage := .solved })
    | .error e => (.error (.backend e), v)
  | decode => (.ok (.report ((v.outcome.map Outcome.report).getD .empty)), { v with stage := .decoded })

theorem exec_compileInto (space : Space) (next : Stage) (source : String) (v : Verifier) (k : StagedCall) :
    ((Verifier.requireStage k >>= fun _ => Verifier.compileInto space next source).run.run v).map
        (·.map fun _ => Reply.done) id =
      match v.require k with
      | .ok () => v.compiling space next source
      | .error e => (.error e, v) := by
  rw [run_bind, Verifier.run_requireStage]
  rcases v.require k with e | ⟨⟩
  · rfl
  · simp only [Verifier.run_compileInto, Verifier.compiling]
    rcases (RoadPolicy.compile v.registry source).run.run v.names with ⟨e | formula, names⟩ <;> rfl

/-- A call checks the stage, if it depends on it, and then does its work. -/
theorem exec_eq (c : Call) (v : Verifier) :
    c.exec v = match c.staged? with
      | none => c.enact v
      | some k =>
        match v.require k with
        | .ok () => c.enact v
        | .error e => (.error e, v) := by
  cases c with
  | populate w =>
    simp only [exec, Verifier.populate, run_bind, Verifier.run_requireStage, staged?]
    rcases v.require .populateModel with e | ⟨⟩ <;> rfl
  | bind sc =>
    rcases h : v.require .bindCodePolicy with e | ⟨⟩
    · simp only [exec, Verifier.bindCode, run_bind, Verifier.run_requireStage, staged?, h]
      rfl
    · simp only [exec_bind sc h, staged?, h, enact]
  | compile space source =>
    cases space with
    | model => rfl
    | code => exact exec_compileInto .code .codePopulated source v .compileCode
    | user => exact exec_compileInto .user .userPopulated source v .compileUser
  | query =>
    simp only [exec, Verifier.query, staged?]
    rcases v.require .query with e | ⟨⟩ <;> rfl
  | solve backend =>
    rcases h : v.require .solve with e | ⟨⟩
    · simp only [exec, Verifier.solve, run_bind, Verifier.run_requireStage, staged?, h]
      rfl
    · rcases hanswer : backend v.conjuncts with e | o <;> simp only [exec_solve backend h, staged?, h, enact, hanswer]
  | decode =>
    rcases h : v.require .decodeResult with e | ⟨⟩
    · simp only [exec, Verifier.decode, run_bind, Verifier.run_requireStage, staged?, h]
      rfl
    · simp only [exec_decode h, staged?, h, enact]

/-- A call is refused and changes nothing, or it does its work. -/
theorem exec_cases (c : Call) (v : Verifier) : (∃ e, c.exec v = (.error e, v)) ∨ c.exec v = c.enact v := by
  rw [exec_eq]
  rcases c.staged? with _ | k
  · exact .inr rfl
  · dsimp only
    rcases v.require k with e | ⟨⟩
    · exact .inl ⟨e, rfl⟩
    · exact .inr rfl

end Call

/-! ## Tidy runs -/

/-- All terms that a world model brings in. -/
def WorldModel.terms (w : WorldModel) : List Term := w.symbols.flatMap (·.2.terms) ++ w.invariants

/-- The world models that a call refers to. -/
def Call.worlds : Call → List WorldModel
  | populate w => [w]
  | bind sc => [sc.worldModel]
  | _ => []

variable {F : Discipline} {D : Nat → Discipline}

/-- Every object of a scenario has a name. -/
theorem Scenario.mem_symbols {sc : Scenario} {o : TrafficObject} (ho : o ∈ sc.objects) :
    (o.name ++ "", Value.object o) ∈ sc.symbols := by
  have hobject : (o.name ++ "", Value.object o) ∈ objectSymbols o :=
    List.mem_map.2 ⟨("", .object o), by simp [featureSymbols], rfl⟩
  exact List.mem_append_right _ (List.mem_flatMap_of_mem ho hobject)

theorem Scenario.mem_worldModel_terms {sc : Scenario} {o : TrafficObject} (ho : o ∈ sc.objects) {t : Term}
    (ht : t ∈ (Value.object o).terms) : t ∈ sc.worldModel.terms :=
  List.mem_append_left _ (List.mem_flatMap_of_mem (mem_symbols ho) ht)

theorem Scenario.tidy_of_worldModel {sc : Scenario} (h : ∀ t ∈ sc.worldModel.terms, t.Tidy F []) : sc.Tidy F :=
  fun _ ho t ht => h t (mem_worldModel_terms ho ht)

/-- The registry of a run is tidy for the names taken so far. -/
def Verifier.Tidy (F : Discipline) (D : Nat → Discipline) (v : Verifier) : Prop := v.registry.Tidy F (D v.names.issued)

/-- A run only ever takes more names, and stays tidy. -/
structure Verifier.TidyStep (F : Discipline) (D : Nat → Discipline) (v w : Verifier) : Prop where
  issued : v.names.issued ≤ w.names.issued
  tidy : w.Tidy F D

namespace Call

theorem tidyStep_compiling (hD : Disciplines F D) {v : Verifier} (h : v.Tidy F D) (space : Space) (next : Stage)
    (source : String) : v.TidyStep F D (v.compiling space next source).2 := by
  unfold Verifier.compiling
  rcases hrun : (RoadPolicy.compile v.registry source).run.run v.names with ⟨e | formula, names⟩
  · have hle := (keepsTidy_compile hD h source _ _ hrun).1
    exact ⟨hle, h.imp fun _ _ => hD.mono hle⟩
  · obtain ⟨hle, hformula⟩ := keepsTidy_compile hD h source _ _ hrun
    have hr : v.registry.Tidy F (D names.issued) := h.imp fun _ _ => hD.mono hle
    exact ⟨hle, hr.assertAll space (List.forall_mem_singleton.2 (hformula formula rfl))⟩

theorem tidyStep_enact (hD : Disciplines F D) {v : Verifier} (h : v.Tidy F D) {c : Call}
    (hc : ∀ w ∈ c.worlds, ∀ t ∈ w.terms, t.Tidy F []) : v.TidyStep F D (c.enact v).2 := by
  have hF : ∀ {t : Term}, t.Tidy F [] → t.Tidy (D v.names.issued) [] := fun ht => ht.imp fun _ => hD.figures _ _ _
  cases c with
  | populate w =>
    have hterms := List.forall_mem_append.1 (hc w (List.mem_singleton_self w))
    have hsymbols : ∀ b ∈ w.symbols, b.2.Tidy F (D v.names.issued) := by
      intro b hb
      have hb : ∀ t ∈ b.2.terms, t.Tidy F [] := fun t ht => hterms.1 t (List.mem_flatMap_of_mem hb ht)
      exact ⟨fun t ht => hb t (Value.mem_terms_of_mem_numbers ht), fun t ht => hF (hb t ht)⟩
    exact ⟨le_refl _, (h.defineAll .model hsymbols).assertAll .model fun t ht => hF (hterms.2 t ht)⟩
  | bind sc =>
    rw [enact]
    split
    · exact ⟨le_refl _, h⟩
    · have hsc := Scenario.tidy_of_worldModel (hc sc.worldModel (List.mem_singleton_self _))
      obtain ⟨hle, hb⟩ := CodeBindings.tidy_ofScenario hD hsc v.names
      have hr : v.registry.Tidy F (D ((CodeBindings.ofScenario sc).run v.names).2.issued) :=
        h.imp fun _ _ => hD.mono hle
      exact ⟨hle, (hr.defineAll .code hb.symbols).assertAll .model hb.facts⟩
  | compile space source =>
    cases space with
    | model => exact ⟨le_refl _, h⟩
    | code => exact tidyStep_compiling hD h .code .codePopulated source
    | user => exact tidyStep_compiling hD h .user .userPopulated source
  | query => exact ⟨le_refl _, h⟩
  | solve backend =>
    rw [enact]
    split <;> exact ⟨le_refl _, h⟩
  | decode => exact ⟨le_refl _, h⟩

/-- One call keeps a run tidy. -/
theorem tidyStep_exec (hD : Disciplines F D) {v : Verifier} (h : v.Tidy F D) {c : Call}
    (hc : ∀ w ∈ c.worlds, ∀ t ∈ w.terms, t.Tidy F []) : v.TidyStep F D (c.exec v).2 := by
  rcases c.exec_cases v with ⟨e, hexec⟩ | hexec
  · rw [hexec]
    exact ⟨le_refl _, h⟩
  · rw [hexec]
    exact tidyStep_enact hD h hc

end Call

theorem Verifier.tidy_new (mode : ActionMode) : (new mode).Tidy F D := Registry.tidy_empty

/-- A whole run stays tidy. -/
theorem Verifier.Tidy.after (hD : Disciplines F D) {v : Verifier} (h : v.Tidy F D) {calls : List Call}
    (hcalls : ∀ c ∈ calls, ∀ w ∈ c.worlds, ∀ t ∈ w.terms, t.Tidy F []) : (v.after calls).Tidy F D := by
  induction calls generalizing v with
  | nil => exact h
  | cons c cs ih =>
    rw [List.forall_mem_cons] at hcalls
    exact ih (Call.tidyStep_exec hD h hcalls.1).tidy hcalls.2

end RoadPolicy
