/-
One run of the command, as a function of the files it can read and of the solver: settings and
scenario, the sources of the code, the property of the user, the query, and the report of what the
solver found.
-/
import RoadPolicy.Check.ReportText
import RoadPolicy.Command.Options
import RoadPolicy.Config.Settings

namespace RoadPolicy

/-- The files that can be read: a path and its text. -/
abbrev Files := String → Option String

/-- Why a run fails. -/
inductive CommandError where
  | options (e : OptionError)
  | unreadableSettings (path : String)
  | settings (path : String) (e : SettingsError)
  | unreadable (path : String)
  | verify (e : VerifyError)
  | inconclusive (reason : String)
deriving DecidableEq, Repr

namespace CommandError

/-- The code of the error, for those that have one. -/
def code? : CommandError → Option String
  | options _ => none
  | unreadableSettings _ => some "avdiff::config"
  | settings _ _ => some "avdiff::config"
  | unreadable _ => none
  | verify e => some e.diagnostic.code
  | inconclusive _ => some "avdiff::inconclusive"

def message : CommandError → String
  | options e => e.message
  | unreadableSettings path => "config error: failed to read " ++ path
  | settings path e => "config error: " ++ path ++ ": " ++ e.message
  | unreadable path => "failed to read " ++ path
  | verify e => e.diagnostic.message
  | inconclusive reason => "solver could not decide the query: " ++ reason

/-- A wrong command line is told from a run that fails. -/
def exitCode : CommandError → Nat
  | options _ => 2
  | _ => 1

end CommandError

/-- What a run leaves behind. -/
structure Completion where
  stdout : String := ""
  /-- The file that was written, and its text. -/
  written : Option (String × String) := none
  error : Option CommandError := none

namespace Completion

def failed (e : CommandError) : Completion := { error := some e }

def exitCode (c : Completion) : Nat :=
  match c.error with
  | some e => e.exitCode
  | none => 0

end Completion

/-- The settings file of a run that names none. -/
def defaultSettingsFile : String := "avdiff.toml"

/-- The name and version of the command. -/
def versionText : String := "avdiff 0.1.0\n"

namespace Options

/-- The files that a run may read. -/
def inputs (o : Options) : List String :=
  [o.config.getD defaultSettingsFile] ++ o.code ++ [o.spec]

/-- The settings from the file that the options name, which has to exist, or from the usual one if it
exists. The options win over the file. -/
def settings (o : Options) (files : Files) : Except CommandError Settings := do
  let path := o.config.getD defaultSettingsFile
  let base ←
    match files path, o.config with
    | some text, _ =>
      match Settings.ofText text with
      | .ok s => pure s
      | .error e => throw (.settings path e)
    | none, none => pure {}
    | none, some _ => throw (.unreadableSettings path)
  return { base with
    preset := o.preset.getD base.preset
    action := o.action.getD base.action
    timeoutMs := o.timeoutMs <|> base.timeoutMs }

/-- Makes a call on a run. -/
def call {α : Type} (v : Verifier) (x : Run α) : Except CommandError (α × Verifier) :=
  match x.run.run v with
  | (.ok a, v) => .ok (a, v)
  | (.error e, _) => .error (.verify e)

/-- Compiles the text of a file. -/
def compileFile (files : Files) (space : Space) (v : Verifier) (path : String) :
    Except CommandError Verifier := do
  match files path with
  | some text => return (← call v (Verifier.compileSource space text)).2
  | none => throw (.unreadable path)

/-- The run up to the point where its query is complete. -/
def prepare (o : Options) (s : Settings) (files : Files) : Except CommandError Verifier := do
  let sc := Scenario.ofPreset s.preset s.scenario
  let (_, v) ← call (.new s.action) do
    Verifier.populate sc.worldModel
    Verifier.bindCode sc
  let v ← o.code.foldlM (compileFile files .code) v
  compileFile files .user v o.spec

/-- The text of the query, if it is to be shown. -/
def shownQuery (o : Options) (v : Verifier) : Except CommandError String :=
  if o.dumpQuery then
    match v.queryScript with
    | .ok text => .ok text
    | .error e => .error (.verify e)
  else .ok ""

/-- Asks the solver and reports what it found. -/
def conclude (o : Options) (backend : Backend) (shown : String) (v : Verifier) : Completion :=
  let finding := call v do
    let verdict ← Verifier.solve backend
    return (verdict, ← Verifier.decode)
  match finding with
  | .error e => { stdout := shown, error := some e }
  | .ok ((verdict, report), _) =>
    let written := some (o.output, report.text)
    match verdict with
    | .inconclusive reason => { stdout := shown, written, error := some (.inconclusive reason) }
    | verdict => { stdout := shown ++ verdict.text ++ "\n", written }

/-- A whole run. -/
def complete (o : Options) (backend : SolverSettings → Backend) (files : Files) : Completion :=
  let prepared := do
    let s ← o.settings files
    let v ← o.prepare s files
    return (s, v, ← o.shownQuery v)
  match prepared with
  | .error e => .failed e
  | .ok (s, v, shown) => o.conclude (backend { timeoutMs := s.timeoutMs }) shown v

end Options

namespace Request

/-- The files that a request may read. -/
def inputs : Request → List String
  | version => []
  | run o => o.inputs

/-- What a request leaves behind. -/
def complete (backend : SolverSettings → Backend) (files : Files) : Request → Completion
  | version => { stdout := versionText }
  | run o => o.complete backend files

end Request

end RoadPolicy
