/-
The settings of a run and how they are read from a file: which scenario, what the code is expected to
do, the numbers of the scenario, and the time that the solver is given. What a file leaves out has
its usual value, and what it adds is an error.
-/
import RoadPolicy.Check.Verifier
import RoadPolicy.Config.Reader

namespace RoadPolicy

/-- The settings of a run. -/
structure Settings where
  preset : Preset := .crosswalk
  action : ActionMode := .flagOff
  scenario : ScenarioSettings := {}
  timeoutMs : Option Nat := some 10000
deriving DecidableEq, Repr

/-- Why a file gives no settings. -/
inductive SettingsError where
  /-- The text is not a settings file. -/
  | malformed
  /-- It sets something that does not exist, or to something that it cannot be. -/
  | unacceptable
deriving DecidableEq, Repr

def SettingsError.message : SettingsError → String
  | malformed => "failed to parse config: malformed document"
  | unacceptable => "failed to parse config: unknown key or unacceptable value"

namespace Config

/-! ## Single values -/

/-- A word is a text, or the key of a table whose only entry is empty. -/
def Item.word? : Item → Option String
  | .text s => some s
  | i =>
    match i.fields? with
    | some [(key, value)] => if value.isEmpty then some key else none
    | _ => none

def Item.integer? : Item → Option Int
  | .integer n => some n
  | _ => none

/-- A number of 32 bits. -/
def Item.count? (i : Item) : Option Nat :=
  i.integer?.bind fun n => if 0 ≤ n ∧ n < 4294967296 then some n.toNat else none

def Item.preset? (i : Item) : Option Preset :=
  i.word?.bind fun w => (Preset.ofText w).toOption

def Item.action? (i : Item) : Option ActionMode :=
  i.word?.bind fun w => (ActionMode.ofText w).toOption

/-! ## Sections -/

/-- The keys of a section, in order, each with what it does to the settings. -/
abbrev Section := List (String × (Item → Settings → Option Settings))

/-- Reads a section: a table with some of its keys, or a list with the values of its first keys. -/
def Section.read (keys : Section) (i : Item) (s : Settings) : Option Settings :=
  match i.fields?, i.items? with
  | some fields, _ => fields.foldlM (fun s e => do (← keys.lookup e.1) e.2 s) s
  | _, some items => (keys.zip items).foldlM (fun s e => e.1.2 e.2 s) s
  | _, _ => none

/-- What to run. -/
def runSection : Section :=
  [("scenario", fun i s => do return { s with preset := ← i.preset? }),
    ("action", fun i s => do return { s with action := ← i.action? })]

/-- The numbers of the scenario. -/
def scenarioSection : Section :=
  [("way_num", fun i s => do
      return { s with scenario := { s.scenario with wayNum := ← i.count? } }),
    ("max_stop_deceleration", fun i s => do
      return { s with scenario := { s.scenario with maxStopDeceleration := ← i.integer? } })]

/-- The limits of the solver. -/
def solverSection : Section :=
  [("timeout_ms", fun i s => do return { s with timeoutMs := some (← i.count?) })]

/-- The sections of a file. -/
def document : Section :=
  [("run", runSection.read), ("scenario", scenarioSection.read), ("solver", solverSection.read)]

end Config

/-- The settings that the text of a file gives. -/
def Settings.ofText (text : String) : Except SettingsError Settings :=
  match Config.readDocument text with
  | none => .error .malformed
  | some fields =>
    match Config.document.read (.record fields) {} with
    | some s => .ok s
    | none => .error .unacceptable

end RoadPolicy
