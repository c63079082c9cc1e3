/-
A run of the checker: the model is populated from a scenario, the names of the code policy may be
bound, sources of the code and of the user are compiled, the query is solved and the answer decoded,
in this order. A call out of order fails and changes nothing. A source that does not compile changes
nothing either, except that fresh names may have been used up.
-/
import RoadPolicy.Check.Report
import RoadPolicy.Policy.CodeBinding
import RoadPolicy.Policy.Compile

namespace RoadPolicy

/-! ## Modes, stages and verdicts -/

/-- What the code policy is expected to do. -/
inductive ActionMode where
  /-- Look for a situation in which the code does not act although the user's property holds. -/
  | flagOff
  /-- Look for a situation in which the code acts and the user's property holds. -/
  | flagOn
deriving DecidableEq, Repr

def ActionMode.text : ActionMode → String
  | flagOff => "flag-off"
  | flagOn => "flag-on"

/-- The complaint about a word that names no mode. -/
structure UnknownAction where
  word : String

def UnknownAction.message (e : UnknownAction) : String :=
  "unknown action '" ++ e.word ++ "' (expected flag-off or flag-on)"

/-- The mode of a name, written with a hyphen or an underscore. -/
def ActionMode.ofText (word : String) : Except UnknownAction ActionMode :=
  match [flagOff, flagOn].find? fun m => m.text == hyphenated word with
  | some m => .ok m
  | none => .error ⟨word⟩

/-- How far a run has come. -/
inductive Stage where
  | uninitialized
  | modelPopulated
  | codePopulated
  | userPopulated
  | solved
  | decoded
deriving DecidableEq, Repr

def Stage.text : Stage → String
  | uninitialized => "uninitialized"
  | modelPopulated => "model-populated"
  | codePopulated => "code-populated"
  | userPopulated => "user-populated"
  | solved => "solved"
  | decoded => "decoded"

/-- What a solver answers. -/
inductive Outcome where
  | sat (m : Model)
  | unsat
  | unknown (reason : String)

/-- What a run finds. -/
inductive Verdict where
  | violationFound
  | noViolation
  | inconclusive (reason : String)
deriving DecidableEq, Repr

def Verdict.text : Verdict → String
  | violationFound => "violation found"
  | noViolation => "no violation"
  | inconclusive reason => "inconclusive (" ++ reason ++ ")"

def Outcome.verdict : Outcome → Verdict
  | sat _ => .violationFound
  | unsat => .noViolation
  | unknown reason => .inconclusive reason

/-! ## Errors -/

/-- The calls that depend on the stage. -/
inductive StagedCall where
  | populateModel
  | bindCodePolicy
  | compileCode
  | compileUser
  | query
  | solve
  | decodeResult
deriving DecidableEq, Repr

namespace StagedCall

def text : StagedCall → String
  | populateModel => "populate_model"
  | bindCodePolicy => "bind_code_policy"
  | compileCode => "compile_space(code)"
  | compileUser => "compile_space(user)"
  | query => "query"
  | solve => "solve"
  | decodeResult => "decode_result"

/-- The stages in which a call is in order. -/
def allowed : StagedCall → List Stage
  | populateModel => [.uninitialized]
  | bindCodePolicy => [.modelPopulated]
  | compileCode => [.modelPopulated, .codePopulated]
  | compileUser => [.codePopulated, .userPopulated]
  | query => [.userPopulated, .solved, .decoded]
  | solve => [.userPopulated]
  | decodeResult => [.solved, .decoded]

end StagedCall

/-- Why a call is not in order. -/
inductive UsageError where
  | wrongStage (call : StagedCall) (stage : Stage)
  | boundTwice
  | modelIsFixed
deriving DecidableEq, Repr

/-- The wording of an error. -/
def UsageError.message : UsageError → String
  | wrongStage call stage =>
    "`" ++ call.text ++ "` called in stage " ++ stage.text ++ ", expected " ++
      " or ".intercalate (call.allowed.map Stage.text)
  | boundTwice => "bind_code_policy called twice; code bindings are already installed"
  | modelIsFixed => "the model space is populated from the scenario and cannot be compiled into"

/-- Why a solver gives no answer. -/
structure BackendError where
  detail : String
  help : Option String := none
deriving DecidableEq, Repr

/-- Why a call fails. -/
inductive VerifyError where
  | usage (e : UsageError)
  | compile (e : CompileError)
  | backend (e : BackendError)
deriving DecidableEq, Repr

/-- The error as it is shown. -/
def VerifyError.diagnostic : VerifyError → Diagnostic
  | usage e => { code := "avdiff::usage", message := "usage error: " ++ e.message }
  | compile e => e.diagnostic
  | backend e =>
    { code := "avdiff::backend", message := "solver backend error: " ++ e.detail, help := e.help }

/-! ## Solvers -/

/-- A solver: it is given formulas that are asserted together. -/
abbrev Backend := List Term → Except BackendError Outcome

/-- The limits that a solver works under. -/
structure SolverSettings where
  timeoutMs : Option Nat := some 10000
  randomSeed : Nat := 0
deriving DecidableEq, Repr

/-- The solver of a build without one. -/
def noBackend : Backend := fun _ =>
  .error ⟨"Z3 backend is not enabled", some "Rebuild with `--features z3`."⟩

/-! ## Runs -/

/-- The names and invariants that a model is populated with. -/
structure WorldModel where
  symbols : List (String × Value)
  invariants : List Term

def Scenario.worldModel (sc : Scenario) : WorldModel := ⟨sc.symbols, sc.invariants⟩

/-- The state of a run. -/
structure Verifier where
  mode : ActionMode
  stage : Stage
  registry : Registry
  names : NameSupply
  codeBound : Bool
  outcome : Option Outcome

/-- A call on a run. -/
abbrev Run := ExceptT VerifyError (StateM Verifier)

namespace Verifier

/-- A run that has not begun. -/
def new (mode : ActionMode) : Verifier := ⟨mode, .uninitialized, .empty, .initial, false, none⟩

/-- Fails unless a call is in order. -/
def require (v : Verifier) (call : StagedCall) : Except VerifyError Unit :=
  if v.stage ∈ call.allowed then .ok () else .error (.usage (.wrongStage call v.stage))

/-- The formulas that a solver is asked about: what the code does, what holds in the model, and what
the user states. -/
def conjuncts (v : Verifier) : List Term :=
  let code := Term.or (v.registry.formulas .code)
  [match v.mode with
    | .flagOff => .not code
    | .flagOn => code,
    .and (v.registry.formulas .model),
    .or (v.registry.formulas .user)]

/-- The query of a run with both policies. -/
def query (v : Verifier) : Except VerifyError (List Term) := do
  v.require .query
  return v.conjuncts

/-- The query as a script. -/
def queryScript (v : Verifier) : Except VerifyError String := do
  return script (← v.query)

/-! ### Calls -/

/-- Fails unless a call is in order. -/
def requireStage (call : StagedCall) : Run Unit := do
  match (← get).require call with
  | .ok () => pure ()
  | .error e => throw e

/-- Copies names and invariants into the model. -/
def populate (w : WorldModel) : Run Unit := do
  requireStage .populateModel
  modify fun v =>
    { v with
      registry := (v.registry.defineAll .model w.symbols).assertAll .model w.invariants
      stage := .modelPopulated }

/-- Binds the names that the code policy uses. The facts about them go to the model. -/
def bindCode (sc : Scenario) : Run Unit := do
  requireStage .bindCodePolicy
  if (← get).codeBound then throw (.usage .boundTwice)
  modify fun v =>
    let (bindings, names) := (CodeBindings.ofScenario sc).run v.names
    { v with
      registry := (v.registry.defineAll .code bindings.symbols).assertAll .model bindings.facts
      names
      codeBound := true }

/-- Compiles a source and adds its formula to a space, which takes the run to a stage. -/
def compileInto (space : Space) (next : Stage) (source : String) : Run Unit := do
  let v ← get
  let (result, names) := (compile v.registry source).run.run v.names
  match result with
  | .ok formula =>
    set { v with registry := v.registry.assert space formula, names, stage := next }
  | .error e =>
    set { v with names }
    throw (.compile e)

/-- Compiles a source of the code or of the user. -/
def compileSource (space : Space) (source : String) : Run Unit :=
  match space with
  | .model => throw (.usage .modelIsFixed)
  | .code => do
    requireStage .compileCode
    compileInto .code .codePopulated source
  | .user => do
    requireStage .compileUser
    compileInto .user .userPopulated source

/-- Asks a solver. A solver that fails leaves the run as it was. -/
def solve (backend : Backend) : Run Verdict := do
  requireStage .solve
  match backend (← get).conjuncts with
  | .ok outcome =>
    modify fun v => { v with outcome := some outcome, stage := .solved }
    return outcome.verdict
  | .error e => throw (.backend e)

/-- The counterexample, which is empty unless the solver found one. -/
def decode : Run Report := do
  requireStage .decodeResult
  let v ← get
  set { v with stage := .decoded }
  match v.outcome with
  | some (.sat m) => return .ofModel m
  | _ => return .empty

/-- How many names and formulas each space has. -/
def counts (v : Verifier) : List (Space × Nat × Nat) :=
  Space.all.map fun s => (s, (v.registry.symbols s).size, (v.registry.formulas s).length)

end Verifier

end RoadPolicy
