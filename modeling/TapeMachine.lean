import TapeMachine.Main
import TapeMachine.Proofs.Brackets
import TapeMachine.Proofs.Execution
import TapeMachine.Proofs.SkipScan
import TapeMachine.Proofs.LoopScan
import TapeMachine.Proofs.LoopStack
import TapeMachine.Proofs.SourceText
import TapeMachine.Proofs.WellFormed
import TapeMachine.Proofs.Structured
import TapeMachine.Proofs.Refinement
import TapeMachine.Proofs.TapeContents
import TapeMachine.Proofs.InStep
import TapeMachine.Proofs.Observation
import TapeMachine.Proofs.TapeSizes
import TapeMachine.Proofs.Reset
import TapeMachine.Proofs.Sequence
import TapeMachine.Proofs.Base64
import TapeMachine.Proofs.Base64Text
import TapeMachine.Proofs.JsonNumeral
import TapeMachine.Proofs.JsonBytes
import TapeMachine.Proofs.Container
import TapeMachine.Proofs.Acceptance
import TapeMachine.Proofs.Paths
import TapeMachine.Proofs.FileTrees
import TapeMachine.Proofs.CompiledFiles
import TapeMachine.Proofs.ConsoleDemand
import TapeMachine.Proofs.SessionLines
import TapeMachine.Proofs.PointerReach
import TapeMachine.Proofs.Refusals
import TapeMachine.Proofs.LineReading
import TapeMachine.Proofs.Pauses
import TapeMachine.Proofs.Places
import TapeMachine.Proofs.BracketCheck
import TapeMachine.Proofs.FailedSteps
import TapeMachine.Proofs.SideBySide
import TapeMachine.Proofs.SessionPairs
import TapeMachine.Proofs.Loading
import TapeMachine.Proofs.Isolation
import TapeMachine.Proofs.CutPrograms
import TapeMachine.Proofs.Decompiling
import TapeMachine.Proofs.EventTrace
import TapeMachine.Proofs.UnpausedDebugging
import TapeMachine.Proofs.LinesRead
import TapeMachine.Proofs.LoopEnds
import TapeMachine.Proofs.WrittenLines
import TapeMachine.Proofs.StraightCode
import TapeMachine.Proofs.TransferLoops
import TapeMachine.Proofs.TapeGrowth
import TapeMachine.Proofs.TokenPlaces
