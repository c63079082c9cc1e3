/-
Compiling a source: it is read, lowered and simplified. The names that it uses are those of the
registry; nothing is added to the registry.
-/
import RoadPolicy.Formula.Simplify
import RoadPolicy.Language.Parser
import RoadPolicy.Policy.Lowering

namespace RoadPolicy

/-- An error of reading as it is shown. -/
def ParseError.diagnostic (e : ParseError) : Diagnostic :=
  match e with
  | malformed _ s => { code := "avdiff::parse", message := e.message, labels := [(s, none)] }
  | unresolved _ s =>
    { code := "avdiff::unresolved_symbol", message := e.message, labels := [(s, none)] }

/-- Why a source does not compile. -/
inductive CompileError where
  | parse (e : ParseError)
  | lower (e : LowerError)
deriving DecidableEq, Repr

namespace CompileError

def span : CompileError → Span
  | parse e => e.span
  | lower e => e.span

/-- The error as it is shown. -/
def diagnostic : CompileError → Diagnostic
  | parse e => e.diagnostic
  | lower e => e.diagnostic

end CompileError

/-- The formula of a source. A source that cannot be read takes no names; one that cannot be lowered
may have taken some. -/
def compile (registry : Registry) (source : String) : ExceptT CompileError Naming Term :=
  match parse registry.resolves source with
  | .error e => throw (.parse e)
  | .ok arena => fun names =>
    match (lower registry arena).run names with
    | (.ok t, names) => (.ok t.simplify, names)
    | (.error e, names) => (.error (.lower e), names)

end RoadPolicy
