/-
The command line. Options are read from left to right, and the first thing wrong decides; the option
that asks for the version answers as soon as it is reached. Whether an option is missing is looked at
in the end.
-/
import RoadPolicy.Check.Verifier

namespace RoadPolicy

/-- What a run is told on the command line. -/
structure Options where
  code : List String
  spec : String
  output : String
  action : Option ActionMode := none
  preset : Option Preset := none
  config : Option String := none
  timeoutMs : Option Nat := none
  dumpQuery : Bool := false
deriving DecidableEq, Repr

/-- What the command line asks for. -/
inductive Request where
  | version
  | run (o : Options)
deriving DecidableEq, Repr

/-- The options that take a value. -/
inductive ValueOption where
  | code
  | spec
  | output
  | action
  | scenario
  | config
  | timeoutMs
deriving DecidableEq, Repr

namespace ValueOption

def all : List ValueOption := [code, spec, output, action, scenario, config, timeoutMs]

def text : ValueOption → String
  | code => "--code"
  | spec => "--spec"
  | output => "--output"
  | action => "--action"
  | scenario => "--scenario"
  | config => "--config"
  | timeoutMs => "--timeout-ms"

def ofText? (word : String) : Option ValueOption := all.find? fun o => o.text == word

end ValueOption

/-- What is wrong with a command line. -/
inductive OptionError where
  | unexpected (argument : String)
  | noValue (o : ValueOption)
  | badValue (o : ValueOption) (value : String)
  | repeated (option : String)
  | missing (o : ValueOption)
deriving DecidableEq, Repr

def OptionError.message : OptionError → String
  | unexpected argument => "unexpected argument '" ++ argument ++ "'"
  | noValue o => "a value is required for '" ++ o.text ++ "'"
  | badValue o value => "invalid value '" ++ value ++ "' for '" ++ o.text ++ "'"
  | repeated option => "the argument '" ++ option ++ "' cannot be used multiple times"
  | missing o => "the required argument '" ++ o.text ++ "' was not provided"

/-! ## Values -/

/-- A path is any text but the empty one. -/
def path? (value : String) : Option String := if value.isEmpty then none else some value

/-- Paths with commas between them. -/
def paths? (value : String) : Option (List String) :=
  ((value.toList.splitOn ',').map String.ofList).mapM path?

/-- A count of 32 bits: digits after an optional sign. -/
def count? (value : String) : Option Nat :=
  let (negative, cs) := match value.toList with
    | '-' :: cs => (true, cs)
    | '+' :: cs => (false, cs)
    | cs => (false, cs)
  if allDigits cs then
    let n := ofDigits cs
    if n < 4294967296 ∧ (negative → n = 0) then some n else none
  else none

/-! ## Reading -/

namespace Options

/-- The options that have been read. -/
structure Draft where
  code : List String := []
  spec : Option String := none
  output : Option String := none
  action : Option ActionMode := none
  preset : Option Preset := none
  config : Option String := none
  timeoutMs : Option Nat := none
  dumpQuery : Bool := false

/-- The value of an option that may be given once. -/
def once {α : Type} (o : ValueOption) (value : String) (read : String → Option α)
    (old : Option α) : Except OptionError (Option α) :=
  match old, read value with
  | some _, _ => .error (.repeated o.text)
  | none, none => .error (.badValue o value)
  | none, some a => .ok (some a)

/-- Takes an option with its value. Only the files of the code may be given more than once. -/
def Draft.take (d : Draft) (o : ValueOption) (value : String) : Except OptionError Draft := do
  match o with
  | .code =>
    match paths? value with
    | some paths => return { d with code := d.code ++ paths }
    | none => throw (.badValue o value)
  | .spec => return { d with spec := ← once o value path? d.spec }
  | .output => return { d with output := ← once o value path? d.output }
  | .action =>
    let read := fun w => [ActionMode.flagOff, .flagOn].find? fun m => m.text == w
    return { d with action := ← once o value read d.action }
  | .scenario =>
    let read := fun w => Preset.all.find? fun p => p.text == w
    return { d with preset := ← once o value read d.preset }
  | .config => return { d with config := ← once o value path? d.config }
  | .timeoutMs => return { d with timeoutMs := ← once o value count? d.timeoutMs }

/-- The options of a run, if none is missing. -/
def Draft.finish (d : Draft) : Except OptionError Options := do
  if d.code.isEmpty then throw (.missing .code)
  match d.spec, d.output with
  | some spec, some output =>
    return { code := d.code, spec, output, action := d.action, preset := d.preset,
             config := d.config, timeoutMs := d.timeoutMs, dumpQuery := d.dumpQuery }
  | none, _ => throw (.missing .spec)
  | _, none => throw (.missing .output)

/-- A single hyphen counts as a value; other words that begin with one do not. -/
def isValue (word : String) : Bool := word == "-" || word.toList.head? != some '-'

/-- A word cut at its first equals sign. -/
def cutAtEquals (word : String) : String × Option String :=
  let cs := word.toList
  match cs.dropWhile (· != '=') with
  | [] => (word, none)
  | _ :: value => (String.ofList (cs.takeWhile (· != '=')), some (String.ofList value))

/-- Reads options one after the other. Two hyphens alone end them, and nothing may follow. -/
def Draft.read (d : Draft) : List String → Except OptionError Request
  | [] => do return .run (← d.finish)
  | word :: rest =>
    if word == "--version" || word.toList.take 2 == ['-', 'V'] then .ok .version
    else if word == "--dump-query" then
      if d.dumpQuery then .error (.repeated word) else read { d with dumpQuery := true } rest
    else if word == "--" then
      match rest with
      | [] => do return .run (← d.finish)
      | next :: _ => .error (.unexpected next)
    else
      let (name, attached) := cutAtEquals word
      match ValueOption.ofText? name, attached, rest with
      | none, _, _ => .error (.unexpected word)
      | some o, some value, rest => do read (← d.take o value) rest
      | some o, none, value :: rest =>
        if isValue value then do read (← d.take o value) rest else .error (.noValue o)
      | some o, none, [] => .error (.noValue o)

end Options

/-- What a command line asks for. -/
def Request.ofArguments (arguments : List String) : Except OptionError Request :=
  Options.Draft.read {} arguments

end RoadPolicy
