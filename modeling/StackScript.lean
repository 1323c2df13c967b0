import StackScript.CommandLine.Session
import StackScript.Main
import StackScript.Proofs.Layout
import StackScript.Proofs.Chunks
import StackScript.Proofs.Decoding
import StackScript.Proofs.FinishedCode
import StackScript.Proofs.WellFormedCode
import StackScript.Proofs.ParserSteps
import StackScript.Proofs.Grammar
import StackScript.Proofs.ParserSoundness
import StackScript.Proofs.ParserCompleteness
import StackScript.Proofs.ResolvedNames
import StackScript.Proofs.SlotLayout
import StackScript.Proofs.StackDepth
import StackScript.Proofs.StackDiscipline
import StackScript.Proofs.Evaluation
import StackScript.Proofs.StackMachine
import StackScript.Proofs.Simulation
import StackScript.Proofs.StoreLayout
import StackScript.Proofs.SemanticPreservation
import StackScript.Proofs.ByteForms
import StackScript.Proofs.BinaryForm
import StackScript.Proofs.BindingNames
import StackScript.Proofs.Places
import StackScript.Proofs.VisibleNames
import StackScript.Proofs.NameFaults
import StackScript.Proofs.LexicalScoping
import StackScript.Proofs.SourceMarks
import StackScript.Proofs.ParsedMarks
import StackScript.Proofs.EmissionLimits
import StackScript.Proofs.LoweringFaults
import StackScript.Proofs.CompileErrors
import StackScript.Proofs.ResolutionTables
import StackScript.Proofs.JumpResolution
import StackScript.Proofs.ChunkRoutines
import StackScript.Proofs.ChunkOrder
import StackScript.Proofs.DraftInvariants
import StackScript.Proofs.WritablePrograms
import StackScript.Proofs.FunctionOrder
import StackScript.Proofs.ChunkLayout
import StackScript.Proofs.ListedCode
import StackScript.Proofs.ListingAgreement
import StackScript.Proofs.PositionErasure
import StackScript.Proofs.LayoutIndependence
import StackScript.Proofs.ExpressionHeight
import StackScript.Proofs.SpacedTokens
import StackScript.Proofs.TallestExpression
import StackScript.Proofs.StructuredForm
import StackScript.Proofs.AppendedStatements
import StackScript.Proofs.Lexemes
import StackScript.Proofs.TruncatedForm
import StackScript.Proofs.ScopeRuns
import StackScript.Proofs.ChunkAttempts
import StackScript.Proofs.ParserProgress
import StackScript.Proofs.TokenWalk
import StackScript.Proofs.WalkAgreement
import StackScript.Proofs.StoredConstants
import StackScript.Proofs.TokenTexts
import StackScript.Proofs.ErrorOrder
import StackScript.Proofs.RepeatedReading
import StackScript.Proofs.CharacterWalk
