/-
The law of a run: whatever is called, with whatever arguments and in whatever order, the calls that
succeed follow the order of a run, a call is refused exactly if it would break this order, and the
query is made of what the successful calls have brought in. Each call is described once, by what it
answers and what it changes; the law follows by induction on the calls.
-/
import RoadPolicy.Proofs.Check.CallOrder
import RoadPolicy.Proofs.Computation
import RoadPolicy.Proofs.Policy.RegistryContents

namespace RoadPolicy

/-! ## Calls and what they bring about -/

/-- A call on a run, with its arguments. -/
inductive Call where
  | populate (w : WorldModel)
  | bind (sc : Scenario)
  | compile (space : Space) (source : String)
  | query
  | solve (backend : Backend)
  | decode

/-- What a successful call returns. -/
inductive Reply where
  | done
  | formulas (query : List Term)
  | verdict (v : Verdict)
  | report (r : Report)

/-- What a successful call has brought about. A query brings about nothing. -/
inductive Deed where
  | populated (w : WorldModel)
  | bound (bindings : CodeBindings)
  | code (formula : Term)
  | user (formula : Term)
  | solved (outcome : Outcome)
  | decoded

/-- What is asserted of the code: that it does not act, or that it acts. -/
def ActionMode.sign : ActionMode → Term → Term
  | flagOff, code => .not code
  | flagOn, code => code

/-- What is reported about an answer of the solver. -/
def Outcome.report : Outcome → Report
  | sat m => .ofModel m
  | unsat => .empty
  | unknown _ => .empty

namespace Deed

/-- The call that brought it about. -/
@[simp] def call : Deed → StagedCall
  | populated _ => .populateModel
  | bound _ => .bindCodePolicy
  | code _ => .compileCode
  | user _ => .compileUser
  | solved _ => .solve
  | decoded => .decodeResult

@[simp] def codeFormula? : Deed → Option Term
  | code f => some f
  | _ => none

@[simp] def userFormula? : Deed → Option Term
  | user f => some f
  | _ => none

/-- The invariants of the scenario that the model is populated from. -/
@[simp] def invariants : Deed → List Term
  | populated w => w.invariants
  | _ => []

/-- The facts that come with the names of the code policy. -/
@[simp] def facts : Deed → List Term
  | bound b => b.facts
  | _ => []

@[simp] def outcome? : Deed → Option Outcome
  | solved o => some o
  | _ => none

end Deed

namespace Call

/-- The place of a call in the order of a run. Nothing can be compiled into the model. -/
def staged? : Call → Option StagedCall
  | populate _ => some .populateModel
  | bind _ => some .bindCodePolicy
  | compile .model _ => none
  | compile .code _ => some .compileCode
  | compile .user _ => some .compileUser
  | query => some .query
  | solve _ => some .solve
  | decode => some .decodeResult

/-- A call that keeps the order after some successful calls. The query can be asked for as soon as a
source of the user has been compiled. -/
def Permitted (made : List StagedCall) (c : Call) : Prop :=
  match c.staged? with
  | none => False
  | some .query => .compileUser ∈ made
  | some k => InOrder (made ++ [k])

/-- Makes a call: the answer, and the run after it. -/
def exec (c : Call) (v : Verifier) : Except VerifyError Reply × Verifier :=
  match c with
  | populate w => ((Verifier.populate w).run.run v).map (·.map fun _ => .done) id
  | bind sc => ((Verifier.bindCode sc).run.run v).map (·.map fun _ => .done) id
  | compile space source => ((Verifier.compileSource space source).run.run v).map (·.map fun _ => .done) id
  | query => (v.query.map .formulas, v)
  | solve backend => ((Verifier.solve backend).run.run v).map (·.map .verdict) id
  | decode => (Verifier.decode.run.run v).map (·.map .report) id

/-- What a call on a run brings about if it succeeds. -/
def effect? (v : Verifier) : Call → Option Deed
  | populate w => some (.populated w)
  | bind sc => some (.bound ((CodeBindings.ofScenario sc).run v.names).1)
  | compile .model _ => none
  | compile .code source => (((RoadPolicy.compile v.registry source).run.run v.names).1.map .code).toOption
  | compile .user source => (((RoadPolicy.compile v.registry source).run.run v.names).1.map .user).toOption
  | query => none
  | solve backend => ((backend v.conjuncts).map .solved).toOption
  | decode => some .decoded

/-- What a call brings about. -/
def deed? (c : Call) (v : Verifier) : Option Deed :=
  match (c.exec v).1 with
  | .ok _ => c.effect? v
  | .error _ => none

end Call

namespace Verifier

/-- The run after some calls. -/
def after (v : Verifier) : List Call → Verifier
  | [] => v
  | c :: cs => (c.exec v).2.after cs

/-- What some calls bring about, in their order. -/
def deeds (v : Verifier) : List Call → List Deed
  | [] => []
  | c :: cs => (c.deed? v).toList ++ (c.exec v).2.deeds cs

/-- The phase of a run. -/
def phase (v : Verifier) : Phase :=
  match v.stage with
  | .uninitialized => .start
  | .modelPopulated => if v.codeBound then .bound else .populated
  | .codePopulated => .code
  | .userPopulated => .user
  | .solved => .solved
  | .decoded => .solved

end Verifier

/-! ## What each call does -/

namespace Verifier

theorem run_requireStage (k : StagedCall) (v : Verifier) : (requireStage k).run.run v = (v.require k, v) := by
  simp only [requireStage, run_bind, run_get]
  rcases v.require k with e | ⟨⟩ <;> rfl

/-- The call that a run makes next is in order by the stage and, for a binding, by what is bound. -/
theorem isSome_next_phase (v : Verifier) {k : StagedCall} (hk : k ≠ .query) :
    (v.phase.next k).isSome ↔ v.stage ∈ k.allowed ∧ (k = .bindCodePolicy → v.codeBound = false) := by
  unfold phase
  revert hk
  cases v.stage <;> cases v.codeBound <;> cases k <;> decide

theorem require_eq_ok {v : Verifier} {k : StagedCall} (hk : k ≠ .query) (h : (v.phase.next k).isSome) :
    v.require k = .ok () := by
  rw [require, if_pos ((v.isSome_next_phase hk).1 h).1]

/-- A call out of order is refused, and a binding also if the names are bound. -/
theorem require_eq_error {v : Verifier} {k : StagedCall} (hk : k ≠ .query) (h : ¬ (v.phase.next k).isSome)
    (hbound : k = .bindCodePolicy → v.codeBound = false) : v.require k = .error (.usage (.wrongStage k v.stage)) := by
  rw [require, if_neg fun hs => h ((v.isSome_next_phase hk).2 ⟨hs, hbound⟩)]

theorem query_eq (v : Verifier) :
    v.query = if v.phase = .user ∨ v.phase = .solved then .ok v.conjuncts
      else .error (.usage (.wrongStage .query v.stage)) := by
  have hallowed : v.stage ∈ StagedCall.query.allowed ↔ v.phase = .user ∨ v.phase = .solved := by
    unfold phase
    cases v.stage <;> cases v.codeBound <;> decide
  rw [query, require]
  by_cases h : v.phase = .user ∨ v.phase = .solved
  · rw [if_pos (hallowed.2 h), if_pos h]; rfl
  · rw [if_neg fun hs => h (hallowed.1 hs), if_neg h]; rfl

/-- A run with the names of a code policy bound. -/
def bound (v : Verifier) (sc : Scenario) : Verifier :=
  let b := (CodeBindings.ofScenario sc).run v.names
  { v with
    registry := (v.registry.defineAll .code b.1.symbols).assertAll .model b.1.facts
    names := b.2
    codeBound := true }

/-- A run with a formula compiled into a space. -/
def compiled (v : Verifier) (space : Space) (next : Stage) (formula : Term) (names : NameSupply) : Verifier :=
  { v with registry := v.registry.assert space formula, names, stage := next }

theorem run_compileInto (space : Space) (next : Stage) (source : String) (v : Verifier) :
    (compileInto space next source).run.run v =
      match (RoadPolicy.compile v.registry source).run.run v.names with
      | (.ok formula, names) => (.ok (), v.compiled space next formula names)
      | (.error e, names) => (.error (.compile e), { v with names }) := by
  simp only [compileInto, run_bind, run_get]
  rcases (RoadPolicy.compile v.registry source).run.run v.names with ⟨e | formula, names⟩ <;> rfl

end Verifier

/-- What a deed changes in a run. -/
structure Deed.Changes (d : Deed) (v w : Verifier) : Prop where
  mode : w.mode = v.mode
  begun : w.stage ≠ .uninitialized
  phase : v.phase.next d.call = some w.phase
  code : w.registry.formulas .code = v.registry.formulas .code ++ d.codeFormula?.toList
  user : w.registry.formulas .user = v.registry.formulas .user ++ d.userFormula?.toList
  model : w.registry.formulas .model = v.registry.formulas .model ++ (d.invariants ++ d.facts)
  outcome : w.outcome = d.outcome?.or v.outcome

namespace Call

/-- A call that a run in some phase does not refuse. -/
def Admitted (p : Phase) (c : Call) : Prop :=
  match c.staged? with
  | none => False
  | some .query => p = .user ∨ p = .solved
  | some k => (p.next k).isSome

theorem permitted_iff_admitted {made : List StagedCall} {p : Phase} (h : Phase.reached made = some p) (c : Call) :
    c.Permitted made ↔ c.Admitted p := by
  unfold Permitted Admitted
  split
  · rfl
  · exact compileUser_mem_iff h
  · rw [inOrder_snoc_iff h, Option.isSome_iff_exists]

/-- What a call does to a run: it is refused, it fails, it answers the query, or it brings something about. -/
inductive Does (c : Call) (v : Verifier) : Prop
  | refused (e : UsageError) : ¬ c.Admitted v.phase → c.exec v = (.error (.usage e), v) → Does c v
  | failed (e : VerifyError) (names : NameSupply) : c.Admitted v.phase → (∀ u, e ≠ .usage u) →
      c.exec v = (.error e, { v with names }) → Does c v
  | answered : c = .query → c.Admitted v.phase → c.exec v = (.ok (.formulas v.conjuncts), v) → Does c v
  | done (r : Reply) (w : Verifier) (d : Deed) : c.Admitted v.phase → c.exec v = (.ok r, w) →
      c.effect? v = some d → d.Changes v w → Does c v

theorem admitted_iff {c : Call} {k : StagedCall} (hc : c.staged? = some k) (hk : k ≠ .query) (p : Phase) :
    c.Admitted p ↔ (p.next k).isSome := by
  unfold Admitted
  rw [hc]
  cases k with
  | query => exact absurd rfl hk
  | populateModel | bindCodePolicy | compileCode | compileUser | solve | decodeResult => rfl

/-- A call that starts with the check of the stage is refused or does what follows the check. -/
theorem does_of_require {c : Call} {v : Verifier} {k : StagedCall} (hc : c.staged? = some k) (hk : k ≠ .query)
    (hb : k ≠ .bindCodePolicy) (hrefuse : ∀ e, v.require k = .error e → c.exec v = (.error e, v))
    (hgo : v.require k = .ok () → v.stage ∈ k.allowed → c.Admitted v.phase → c.Does v) : c.Does v := by
  have hadm := admitted_iff hc hk v.phase
  by_cases h : (v.phase.next k).isSome
  · exact hgo (Verifier.require_eq_ok hk h) ((v.isSome_next_phase hk).1 h).1 (hadm.2 h)
  · have herr := Verifier.require_eq_error hk h fun h' => absurd h' hb
    exact .refused _ (fun h' => h (hadm.1 h')) (hrefuse _ herr)

theorem does_populate (w : WorldModel) {v : Verifier} (hfresh : v.stage = .uninitialized → v.codeBound = false) :
    (populate w).Does v := by
  refine does_of_require rfl (by decide) (by decide) (fun e he => ?_) fun hok hstage hadm => ?_
  · simp only [exec, Verifier.populate, run_bind, Verifier.run_requireStage, he]; rfl
  · have hstage : v.stage = .uninitialized := by simpa [StagedCall.allowed] using hstage
    refine .done .done { v with
      registry := (v.registry.defineAll .model w.symbols).assertAll .model w.invariants
      stage := .modelPopulated } (.populated w) hadm ?_ rfl ?_
    · simp only [exec, Verifier.populate, run_bind, Verifier.run_requireStage, hok]; rfl
    · constructor <;> simp [Verifier.phase, Phase.next, hstage, hfresh hstage]

theorem exec_bind {v : Verifier} (sc : Scenario) (h : v.require .bindCodePolicy = .ok ()) :
    (bind sc).exec v =
      if v.codeBound then (.error (.usage .boundTwice), v) else (.ok .done, v.bound sc) := by
  simp only [exec, Verifier.bindCode, run_bind, run_get, Verifier.run_requireStage, h]
  by_cases hb : v.codeBound = true
  · simp only [if_pos hb]; rfl
  · simp only [if_neg hb]; rfl

theorem does_bind (sc : Scenario) (v : Verifier) : (bind sc).Does v := by
  have hadm := admitted_iff (c := bind sc) rfl (by decide) v.phase
  rw [v.isSome_next_phase (by decide)] at hadm
  by_cases hstage : v.stage ∈ StagedCall.bindCodePolicy.allowed
  · have hok : v.require .bindCodePolicy = .ok () := by rw [Verifier.require, if_pos hstage]
    have hexec := exec_bind sc hok
    by_cases hbound : v.codeBound = true
    · rw [if_pos hbound] at hexec
      exact .refused .boundTwice (fun h => absurd ((hadm.1 h).2 rfl) (by simp [hbound])) hexec
    · rw [if_neg hbound] at hexec
      have hstage : v.stage = .modelPopulated := by simpa [StagedCall.allowed] using hstage
      refine .done .done (v.bound sc) _ (hadm.2 ⟨by simp [hstage, StagedCall.allowed], by simpa using hbound⟩) hexec rfl ?_
      constructor <;> simp [Verifier.bound, Verifier.phase, Phase.next, hstage, hbound]
  · refine .refused (.wrongStage .bindCodePolicy v.stage) (fun h => hstage (hadm.1 h).1) ?_
    simp only [exec, Verifier.bindCode, run_bind, Verifier.run_requireStage, Verifier.require, if_neg hstage]
    rfl

theorem does_compileInto {c : Call} {v : Verifier} {k : StagedCall} {space : Space} {next : Stage} {source : String}
    {deed : Term → Deed} (hc : c.staged? = some k) (hk : k ≠ .query) (hb : k ≠ .bindCodePolicy)
    (hexec : c.exec v = ((Verifier.requireStage k >>= fun _ => Verifier.compileInto space next source).run.run v).map
      (·.map fun _ => .done) id)
    (heffect : c.effect? v = (((RoadPolicy.compile v.registry source).run.run v.names).1.map deed).toOption)
    (hdone : ∀ formula names, (v.phase.next k).isSome → (deed formula).Changes v (v.compiled space next formula names)) :
    c.Does v := by
  rw [run_bind, Verifier.run_requireStage] at hexec
  refine does_of_require hc hk hb (fun e he => ?_) fun hok _ hadm => ?_
  · rw [hexec, he]; rfl
  · rw [hok] at hexec
    simp only [Verifier.run_compileInto] at hexec
    rcases hrun : (RoadPolicy.compile v.registry source).run.run v.names with ⟨e | formula, names⟩
    · rw [hrun] at hexec
      exact .failed (.compile e) names hadm (by simp) hexec
    · rw [hrun] at hexec heffect
      exact .done .done _ (deed formula) hadm hexec heffect (hdone formula names ((admitted_iff hc hk v.phase).1 hadm))

theorem does_compile (space : Space) (source : String) (v : Verifier) : (compile space source).Does v := by
  cases space with
  | model => exact .refused .modelIsFixed (fun h => h) rfl
  | code =>
    refine does_compileInto rfl (by decide) (by decide) rfl rfl fun formula names h => ?_
    have hphase : v.phase.next .compileCode = some .code := by
      revert h; cases v.phase <;> decide
    refine ⟨rfl, ?_, hphase, ?_, ?_, ?_, rfl⟩ <;> simp [Verifier.compiled]
  | user =>
    refine does_compileInto rfl (by decide) (by decide) rfl rfl fun formula names h => ?_
    have hphase : v.phase.next .compileUser = some .user := by
      revert h; cases v.phase <;> decide
    refine ⟨rfl, ?_, hphase, ?_, ?_, ?_, rfl⟩ <;> simp [Verifier.compiled]

theorem does_query (v : Verifier) : query.Does v := by
  have hexec : query.exec v = (v.query.map .formulas, v) := rfl
  rw [v.query_eq] at hexec
  by_cases h : v.phase = .user ∨ v.phase = .solved
  · rw [if_pos h] at hexec
    exact .answered rfl h hexec
  · rw [if_neg h] at hexec
    exact .refused _ h hexec

theorem exec_solve {v : Verifier} (backend : Backend) (h : v.require .solve = .ok ()) :
    (solve backend).exec v =
      match backend v.conjuncts with
      | .ok o => (.ok (.verdict o.verdict), { v with outcome := some o, stage := .solved })
      | .error e => (.error (.backend e), v) := by
  simp only [exec, Verifier.solve, run_bind, run_get, Verifier.run_requireStage, h]
  rcases backend v.conjuncts with e | o <;> rfl

theorem does_solve (backend : Backend) (v : Verifier) : (solve backend).Does v := by
  refine does_of_require rfl (by decide) (by decide) (fun e he => ?_) fun hok hstage hadm => ?_
  · simp only [exec, Verifier.solve, run_bind, Verifier.run_requireStage, he]; rfl
  · have hstage : v.stage = .userPopulated := by simpa [StagedCall.allowed] using hstage
    have hexec := exec_solve backend hok
    rcases hb : backend v.conjuncts with e | o
    · rw [hb] at hexec
      exact .failed (.backend e) v.names hadm (by simp) hexec
    · rw [hb] at hexec
      refine .done _ _ (.solved o) hadm hexec (by simp only [effect?, hb]; rfl) ?_
      constructor <;> simp [Verifier.phase, Phase.next, hstage]

/-- Decoding reports on the answer that the run keeps. -/
theorem exec_decode {v : Verifier} (h : v.require .decodeResult = .ok ()) :
    decode.exec v = (.ok (.report ((v.outcome.map Outcome.report).getD .empty)), { v with stage := .decoded }) := by
  simp only [exec, Verifier.decode, run_bind, run_get, Verifier.run_requireStage, h]
  rcases v.outcome with _ | (m | _ | reason) <;> rfl

theorem does_decode (v : Verifier) : decode.Does v := by
  refine does_of_require rfl (by decide) (by decide) (fun e he => ?_) fun hok hstage hadm => ?_
  · simp only [exec, Verifier.decode, run_bind, Verifier.run_requireStage, he]; rfl
  · refine .done _ _ .decoded hadm (exec_decode hok) rfl ?_
    have hphase : v.phase.next .decodeResult = some .solved := by
      have h := (admitted_iff (c := decode) rfl (by decide) v.phase).1 hadm
      revert h; cases v.phase <;> decide
    refine ⟨rfl, ?_, hphase, ?_, ?_, ?_, rfl⟩ <;> simp

theorem does (c : Call) {v : Verifier} (hfresh : v.stage = .uninitialized → v.codeBound = false) : c.Does v := by
  cases c with
  | populate w => exact does_populate w hfresh
  | bind sc => exact does_bind sc v
  | compile space source => exact does_compile space source v
  | query => exact does_query v
  | solve backend => exact does_solve backend v
  | decode => exact does_decode v

end Call

/-! ## The law -/

namespace Verifier

/-- A run agrees with what its calls have brought about. -/
structure Tracks (mode : ActionMode) (ds : List Deed) (v : Verifier) : Prop where
  mode : v.mode = mode
  fresh : v.stage = .uninitialized → v.codeBound = false
  phase : Phase.reached (ds.map Deed.call) = some v.phase
  code : v.registry.formulas .code = ds.filterMap Deed.codeFormula?
  user : v.registry.formulas .user = ds.filterMap Deed.userFormula?
  model : v.registry.formulas .model = ds.flatMap Deed.invariants ++ ds.flatMap Deed.facts
  outcome : ds.filterMap Deed.outcome? = v.outcome.toList
  answered : v.outcome.isSome ↔ v.phase = .solved

theorem tracks_new (mode : ActionMode) : (new mode).Tracks mode [] := by
  constructor <;> simp [new, Registry.formulas, Registry.table, Registry.empty, Phase.reached, phase]

/-- The invariants are there before any fact. -/
theorem Tracks.model_snoc {mode : ActionMode} {ds : List Deed} {v : Verifier} (h : v.Tracks mode ds) {d : Deed}
    {p : Phase} (hd : v.phase.next d.call = some p) :
    ds.flatMap Deed.invariants ++ ds.flatMap Deed.facts ++ (d.invariants ++ d.facts) =
      (ds ++ [d]).flatMap Deed.invariants ++ (ds ++ [d]).flatMap Deed.facts := by
  cases d with
  | populated w =>
    have hstart : v.phase = .start := by
      revert hd; cases v.phase <;> simp [Phase.next]
    have hnil : ds.map Deed.call = [] := by
      have := Phase.shape_of_reached h.phase
      rwa [hstart] at this
    rw [List.map_eq_nil_iff.1 hnil]
    simp
  | bound | code | user | solved | decoded => simp

theorem Tracks.step {mode : ActionMode} {ds : List Deed} {v w : Verifier} {d : Deed} (h : v.Tracks mode ds)
    (hd : d.Changes v w) : w.Tracks mode (ds ++ [d]) := by
  have hphase := hd.phase
  refine ⟨hd.mode.trans h.mode, fun hs => absurd hs hd.begun, ?_, ?_, ?_, ?_, ?_, ?_⟩
  · rw [List.map_append, List.map_singleton, Phase.reached_snoc, h.phase]
    exact hphase
  · rw [hd.code, h.code, List.filterMap_append]
    cases d <;> rfl
  · rw [hd.user, h.user, List.filterMap_append]
    cases d <;> rfl
  · rw [hd.model, h.model, h.model_snoc hphase]
  · rw [hd.outcome, List.filterMap_append, h.outcome]
    cases d with
    | solved o =>
      -- nothing has been solved before
      have hnone : v.outcome = none := by
        have : ¬ v.outcome.isSome := by
          rw [h.answered]
          intro hs
          simp [hs, Phase.next] at hphase
        simpa using this
      simp [hnone]
    | populated | bound | code | user | decoded => simp
  · rw [hd.outcome]
    have hans := h.answered
    revert hphase hans
    cases d <;> cases v.phase <;> cases w.phase <;> simp [Phase.next]

theorem Tracks.names {mode : ActionMode} {ds : List Deed} {v : Verifier} (h : v.Tracks mode ds) (names : NameSupply) :
    { v with names }.Tracks mode ds :=
  ⟨h.mode, h.fresh, h.phase, h.code, h.user, h.model, h.outcome, h.answered⟩

theorem Tracks.exec {mode : ActionMode} {ds : List Deed} {v : Verifier} (h : v.Tracks mode ds) (c : Call) :
    (c.exec v).2.Tracks mode (ds ++ (c.deed? v).toList) := by
  cases c.does h.fresh with
  | refused e _ hexec =>
    have hdeed : c.deed? v = none := by rw [Call.deed?, hexec]
    rw [hdeed, hexec]
    simpa using h
  | failed e names _ _ hexec =>
    have hdeed : c.deed? v = none := by rw [Call.deed?, hexec]
    rw [hdeed, hexec]
    simpa using h.names names
  | answered hc _ hexec =>
    have hdeed : c.deed? v = none := by rw [Call.deed?, hexec, hc]; rfl
    rw [hdeed, hexec]
    simpa using h
  | done r w d _ hexec heffect hd =>
    have hdeed : c.deed? v = some d := by rw [Call.deed?, hexec]; exact heffect
    rw [hdeed, hexec]
    exact h.step hd

theorem Tracks.after {mode : ActionMode} : ∀ {calls : List Call} {ds : List Deed} {v : Verifier}, v.Tracks mode ds →
    (v.after calls).Tracks mode (ds ++ v.deeds calls)
  | [], ds, v, h => by simpa [Verifier.after, deeds] using h
  | c :: cs, ds, v, h => by
    have htail : (v.after (c :: cs)).Tracks mode (ds ++ (c.deed? v).toList ++ (c.exec v).2.deeds cs) :=
      Tracks.after (h.exec c)
    rwa [List.append_assoc] at htail

theorem tracks_after (mode : ActionMode) (calls : List Call) :
    ((new mode).after calls).Tracks mode ((new mode).deeds calls) :=
  (tracks_new mode).after

/-- The query, of what has been brought in: the code policy with the sign of the mode, the model and the user. -/
theorem Tracks.conjuncts_eq {mode : ActionMode} {ds : List Deed} {v : Verifier} (h : v.Tracks mode ds) :
    v.conjuncts =
      [mode.sign (.or (ds.filterMap Deed.codeFormula?)),
        .and (ds.flatMap Deed.invariants ++ ds.flatMap Deed.facts),
        .or (ds.filterMap Deed.userFormula?)] := by
  simp only [conjuncts, h.mode, h.code, h.user, h.model]
  cases mode <;> rfl

theorem Tracks.exec_eq_usage_iff {mode : ActionMode} {ds : List Deed} {v : Verifier} (h : v.Tracks mode ds) (c : Call) :
    (∃ e, (c.exec v).1 = .error (.usage e)) ↔ ¬ c.Permitted (ds.map Deed.call) := by
  rw [Call.permitted_iff_admitted h.phase]
  cases c.does h.fresh with
  | refused e hadm hexec =>
    rw [hexec]
    exact ⟨fun _ => hadm, fun _ => ⟨e, rfl⟩⟩
  | failed e names hadm husage hexec =>
    rw [hexec]
    refine ⟨?_, fun hn => absurd hadm hn⟩
    rintro ⟨u, hu⟩
    exact absurd (Except.error.inj hu) (husage u)
  | answered _ hadm hexec | done _ _ _ hadm hexec _ _ =>
    rw [hexec]
    refine ⟨?_, fun hn => absurd hadm hn⟩
    rintro ⟨u, hu⟩
    cases hu

end Verifier

/-- Solving and decoding add no formula, and the query can be asked for before and after. -/
theorem Deed.Changes.query_eq {d : Deed} {v w : Verifier} (hd : d.Changes v w)
    (h : d.call = .solve ∨ d.call = .decodeResult) : w.query = v.query := by
  have hphase := hd.phase
  have hconj : w.conjuncts = v.conjuncts := by
    -- neither a solve nor a decode adds a formula
    have hcode := hd.code
    have huser := hd.user
    have hmodel := hd.model
    cases d with
    | solved | decoded =>
      simp only [codeFormula?, userFormula?, invariants, facts, Option.toList_none, List.append_nil] at hcode huser hmodel
      simp only [Verifier.conjuncts, hd.mode, hcode, huser, hmodel]
    | populated | bound | code | user => simp [call] at h
  rw [v.query_eq, w.query_eq, hconj]
  rcases h with h | h
  · rw [h] at hphase
    have : v.phase = .user ∧ w.phase = .solved := by
      revert hphase; cases v.phase <;> simp [Phase.next, eq_comm]
    rw [if_pos (.inr this.2), if_pos (.inl this.1)]
  · rw [h] at hphase
    have : v.phase = .solved ∧ w.phase = .solved := by
      revert hphase; cases v.phase <;> simp [Phase.next, eq_comm]
    rw [if_pos (.inr this.2), if_pos (.inr this.1)]

namespace Verifier

theorem query_exec {c : Call} {v : Verifier} (hdoes : c.Does v)
    (h : (∃ backend, c = .solve backend) ∨ c = .decode ∨ ∃ e, (c.exec v).1 = .error e) :
    (c.exec v).2.query = v.query := by
  cases hdoes with
  | refused e _ hexec => rw [hexec]
  | failed e names _ _ hexec => rw [hexec]; rfl
  | answered _ _ hexec => rw [hexec]
  | done r w d _ hexec heffect hd =>
    rw [hexec] at h ⊢
    refine hd.query_eq ?_
    rcases h with ⟨backend, rfl⟩ | rfl | ⟨e, he⟩
    · rw [Call.effect?] at heffect
      rcases hb : backend v.conjuncts with e | o
      · rw [hb] at heffect; cases heffect
      · rw [hb] at heffect; cases heffect; exact .inl rfl
    · cases heffect; exact .inr rfl
    · cases he

/-- The law of a run. After any calls, of which some succeeded and some did not:
the successful ones are in order; a further call is refused exactly if it would break the order; the
query, once it can be asked for, has the formulas of the successful calls; it stays the same when the
solver is asked, when the answer is decoded and when a call fails; and decoding reports on the answer
to the one successful call of the solver. -/
theorem run_in_order (mode : ActionMode) (calls : List Call) :
    let v := (new mode).after calls
    let ds := (new mode).deeds calls
    InOrder (ds.map Deed.call) ∧
    (∀ c : Call, (∃ e, (c.exec v).1 = .error (.usage e)) ↔ ¬ c.Permitted (ds.map Deed.call)) ∧
    (Call.query.Permitted (ds.map Deed.call) →
      v.query = .ok [mode.sign (.or (ds.filterMap Deed.codeFormula?)),
        .and (ds.flatMap Deed.invariants ++ ds.flatMap Deed.facts),
        .or (ds.filterMap Deed.userFormula?)]) ∧
    (∀ c : Call, ((∃ backend, c = .solve backend) ∨ c = .decode ∨ ∃ e, (c.exec v).1 = .error e) →
      (c.exec v).2.query = v.query) ∧
    (Call.decode.Permitted (ds.map Deed.call) →
      ∃ o, ds.filterMap Deed.outcome? = [o] ∧ (Call.decode.exec v).1 = .ok (.report o.report)) := by
  intro v ds
  have h : v.Tracks mode ds := tracks_after mode calls
  refine ⟨inOrder_iff_reached.2 ⟨v.phase, h.phase⟩, h.exec_eq_usage_iff, ?_, fun c => query_exec (c.does h.fresh), ?_⟩
  · intro hq
    have hadm : v.phase = .user ∨ v.phase = .solved := (Call.permitted_iff_admitted h.phase _).1 hq
    rw [query_eq, if_pos hadm, h.conjuncts_eq]
  · intro hd
    have hadm := (Call.permitted_iff_admitted h.phase _).1 hd
    -- a decode is in order after a solve only, so there is an answer
    have hsolved : v.phase = .solved := by
      have hnext : (v.phase.next .decodeResult).isSome := hadm
      revert hnext; cases v.phase <;> decide
    obtain ⟨o, ho⟩ := Option.isSome_iff_exists.1 (h.answered.2 hsolved)
    refine ⟨o, by rw [h.outcome, ho]; rfl, ?_⟩
    rw [Call.exec_decode (require_eq_ok (by decide) hadm), ho]
    rfl

end Verifier

end RoadPolicy
