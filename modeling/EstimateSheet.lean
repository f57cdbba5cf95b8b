import EstimateSheet.Formula.Eval
import EstimateSheet.Formula.Parser
import EstimateSheet.Simulation.Export
import EstimateSheet.Statistics.Histogram
import EstimateSheet.Proofs.Grammar
import EstimateSheet.Proofs.Admission
import EstimateSheet.Proofs.Reading
import EstimateSheet.Proofs.ReadingSound
import EstimateSheet.Proofs.ReadingComplete
import EstimateSheet.Proofs.Sequential
import EstimateSheet.Proofs.Samples
import EstimateSheet.Proofs.Parallel
import EstimateSheet.Proofs.CellFormulas
import EstimateSheet.Proofs.EvalSteps
import EstimateSheet.Proofs.EvalErrors
import EstimateSheet.Proofs.RunSafety
import EstimateSheet.Proofs.Agreement
import EstimateSheet.Proofs.WordsRead
import EstimateSheet.Proofs.WordDemand
import EstimateSheet.Proofs.Acceptance
import EstimateSheet.Proofs.Dependencies
import EstimateSheet.Proofs.Accounting
import EstimateSheet.Proofs.Declares
import EstimateSheet.Proofs.WrittenText
import EstimateSheet.Proofs.Success
import EstimateSheet.Proofs.Deterministic
import EstimateSheet.Proofs.Edits
import EstimateSheet.Proofs.Concatenation
import EstimateSheet.Proofs.NumericView
import EstimateSheet.Proofs.DecimalText
import EstimateSheet.Proofs.Printing
import EstimateSheet.Proofs.Grouping
import EstimateSheet.Proofs.Precedence
import EstimateSheet.Proofs.Regrouping
import EstimateSheet.Proofs.Rereading
import EstimateSheet.Proofs.MaximalMunch
import EstimateSheet.Proofs.OrderedChoice
import EstimateSheet.Proofs.Layout
import EstimateSheet.Proofs.Outcomes
import EstimateSheet.Proofs.Brackets
import EstimateSheet.Proofs.Violations
import EstimateSheet.Proofs.DefinedNames
import EstimateSheet.Proofs.FirstViolation
import EstimateSheet.Proofs.IterationSeeds
import EstimateSheet.Proofs.Ranking
import EstimateSheet.Proofs.NestingLimit
import EstimateSheet.Proofs.RoundingBounds
import EstimateSheet.Proofs.FiniteArithmetic
import EstimateSheet.Proofs.SquareRoot
import EstimateSheet.Proofs.ConstantSamples
import EstimateSheet.Proofs.FirstUse
import EstimateSheet.Proofs.SortedSamples
import EstimateSheet.Proofs.Quantiles
import EstimateSheet.Proofs.DeclarationPattern
import EstimateSheet.Proofs.Percentiles
import EstimateSheet.Proofs.Extrema
import EstimateSheet.Proofs.BucketCounts
import EstimateSheet.Proofs.EndBuckets
import EstimateSheet.Proofs.SignedRounding
import EstimateSheet.Proofs.Medians
import EstimateSheet.Proofs.NearestWhole
import EstimateSheet.Proofs.UniformRange
import EstimateSheet.Proofs.BooleanCells
