/-
The command: it reads the files that the command line names, runs, and shows the result.
-/
import RoadPolicy.Command.Session

namespace RoadPolicy.Command

/-- The text of a file, if it can be read. -/
def readText (path : String) : IO (Option String) := do
  try
    return some (← IO.FS.readFile path)
  catch _ =>
    return none

/-- Shows what a run leaves behind. -/
def present (c : Completion) : IO UInt32 := do
  if let some (path, text) := c.written then
    IO.FS.writeFile path text
  IO.print c.stdout
  if let some e := c.error then
    IO.eprintln ("Error: " ++ e.message)
  return UInt32.ofNat c.exitCode

/-- Does what the command line asks for. -/
def perform (arguments : List String) : IO UInt32 := do
  match Request.ofArguments arguments with
  | .error e => present (.failed (.options e))
  | .ok request =>
    let texts ← request.inputs.mapM fun path => do return (path, ← readText path)
    present (request.complete (fun _ => noBackend) fun path => (texts.lookup path).join)

end RoadPolicy.Command

def main (arguments : List String) : IO UInt32 := RoadPolicy.Command.perform arguments
