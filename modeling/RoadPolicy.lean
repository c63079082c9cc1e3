import RoadPolicy.Check.Report
import RoadPolicy.Check.ReportText
import RoadPolicy.Check.Verifier
import RoadPolicy.Command.Options
import RoadPolicy.Command.Session
import RoadPolicy.Config.Item
import RoadPolicy.Config.Reader
import RoadPolicy.Config.Settings
import RoadPolicy.Language.Tree
import RoadPolicy.Main
import RoadPolicy.Proofs.Formula.Meaning
import RoadPolicy.Proofs.Formula.SimplifySound
import RoadPolicy.Proofs.Formula.SimplifyEval
import RoadPolicy.Proofs.Formula.SafeEval
import RoadPolicy.Proofs.Language.Expression
import RoadPolicy.Proofs.Language.Grammar
import RoadPolicy.Proofs.Language.ParserMachine
import RoadPolicy.Proofs.Language.ParserGrammar
import RoadPolicy.Proofs.Language.Lexing
import RoadPolicy.Proofs.Language.Forest
import RoadPolicy.Proofs.Check.CallOrder
import RoadPolicy.Proofs.Check.RunLaw
import RoadPolicy.Proofs.Check.Filing
import RoadPolicy.Proofs.Computation
import RoadPolicy.Proofs.Language.PostOrder
import RoadPolicy.Proofs.Policy.RecursiveLowering
import RoadPolicy.Proofs.Road.PointSets
import RoadPolicy.Proofs.Number.DecimalValue
import RoadPolicy.Proofs.Policy.Reading
import RoadPolicy.Proofs.Policy.OperatorMeaning
import RoadPolicy.Proofs.Policy.CompileMeaning
import RoadPolicy.Proofs.Policy.Typing
import RoadPolicy.Proofs.Road.FittingFigures
import RoadPolicy.Proofs.Policy.OperatorTyping
import RoadPolicy.Proofs.Policy.TypeSoundness
import RoadPolicy.Proofs.Language.RoundTrip
import RoadPolicy.Proofs.Formula.Subterms
import RoadPolicy.Proofs.Formula.SExprReading
import RoadPolicy.Proofs.Formula.TermReading
import RoadPolicy.Proofs.Policy.BindingParts
import RoadPolicy.Proofs.Policy.RegistryContents
import RoadPolicy.Proofs.Policy.SatisfiableModel
import RoadPolicy.Proofs.Formula.BoundNames
import RoadPolicy.Proofs.Road.Coordinates
import RoadPolicy.Proofs.Policy.TakenNames
import RoadPolicy.Proofs.Policy.TidyCompile
import RoadPolicy.Proofs.Policy.Applications
import RoadPolicy.Proofs.Check.TidyRuns
import RoadPolicy.Proofs.Check.BinderHygiene
import RoadPolicy.Proofs.Formula.Renaming
import RoadPolicy.Proofs.Policy.RenamedRegistry
import RoadPolicy.Proofs.Policy.RenamedCompile
import RoadPolicy.Proofs.Check.FailedCalls
import RoadPolicy.Proofs.Language.ArenaEdits
import RoadPolicy.Proofs.Language.TokenLayout
import RoadPolicy.Proofs.Policy.UsedNames
import RoadPolicy.Proofs.Check.SourceOrder
import RoadPolicy.Proofs.Road.StraightLines
import RoadPolicy.Proofs.Formula.FreeConstants
import RoadPolicy.Proofs.Policy.FigureRelations
import RoadPolicy.Proofs.Number.IntegerDoubles
import RoadPolicy.Proofs.Formula.IntegerEval
import RoadPolicy.Proofs.Language.SubtreeWalk
import RoadPolicy.Proofs.Policy.OperandTable
import RoadPolicy.Proofs.Policy.CompileErrors
import RoadPolicy.Proofs.Language.FirstFault
import RoadPolicy.Proofs.Policy.ErrorPlaces
import RoadPolicy.Proofs.Formula.Dependence
import RoadPolicy.Proofs.Road.Boxes
import RoadPolicy.Proofs.Policy.EncounterCases
import RoadPolicy.Proofs.Policy.EgoPath
import RoadPolicy.Proofs.ByteOrder
import RoadPolicy.Proofs.Formula.ClosedScripts
import RoadPolicy.Proofs.Policy.ScenarioComposition
import RoadPolicy.Proofs.Policy.ScenarioNames
import RoadPolicy.Proofs.Check.FiledObjects
import RoadPolicy.Proofs.Formula.NormalForm
import RoadPolicy.Proofs.Policy.ExactLiterals
import RoadPolicy.Proofs.Policy.SignalPartition
import RoadPolicy.Proofs.Language.NumberWords
