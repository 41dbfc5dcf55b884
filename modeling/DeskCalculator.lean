import DeskCalculator.Main
import DeskCalculator.Proofs.EvaluatorRuns
import DeskCalculator.Proofs.InfixMeaning
import DeskCalculator.Proofs.Substitution
import DeskCalculator.Proofs.Success
import DeskCalculator.Proofs.Placement
import DeskCalculator.Proofs.Recency
import DeskCalculator.Proofs.RepeatedEquals
import DeskCalculator.Proofs.StrayClosing
import DeskCalculator.Proofs.SessionRuns
import DeskCalculator.Proofs.PercentTokens
import DeskCalculator.Proofs.Containment
import DeskCalculator.Proofs.SharedEvaluator
import DeskCalculator.Proofs.HistoryRecord
import DeskCalculator.Proofs.BatchRows
import DeskCalculator.Proofs.Trimming
import DeskCalculator.Proofs.FrontEnds
import DeskCalculator.Proofs.Sums
import DeskCalculator.Proofs.MemoryRegister
import DeskCalculator.Proofs.ExactOperations
import DeskCalculator.Proofs.IntegerArithmetic
import DeskCalculator.Proofs.ReadTables
import DeskCalculator.Proofs.AllOrNothing
import DeskCalculator.Proofs.ColumnNames
import DeskCalculator.Proofs.WrittenTables
import DeskCalculator.Proofs.WrittenReports
import DeskCalculator.Proofs.Rerun
import DeskCalculator.Proofs.Spacing
import DeskCalculator.Proofs.WrittenTokens
import DeskCalculator.Proofs.MinusSigns
import DeskCalculator.Proofs.Transcript
import DeskCalculator.Proofs.BareCalls
import DeskCalculator.Proofs.Provenance
import DeskCalculator.Proofs.StackHeights
import DeskCalculator.Proofs.Degrees
import DeskCalculator.Proofs.DisplayOrder
import DeskCalculator.Proofs.TypedNumbers
import DeskCalculator.Proofs.FactorialValues
import DeskCalculator.Proofs.OperatorStack
import DeskCalculator.Proofs.PercentKey
