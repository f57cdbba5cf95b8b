import EstimateSheet.Document.Basic
import EstimateSheet.Formula.Eval
import EstimateSheet.Random.ChaCha

/-!
# Iterations

An iteration of a simulation evaluates the cells of a document once, in order. It starts without
bindings and from a source of its own, whose seed is made of the seed of the run and the number of
the iteration. Each cell then reads the values of those before it and draws what they have left. The
samples are put into a row, which may hold those of another iteration.
-/

namespace EstimateSheet

/-- Why a run has no results. -/
inductive RunError where
  | evaluation (cell : String) (error : FormulaError)
  | cancelled (completed requested : Nat)
deriving DecidableEq

namespace RunError

def message : RunError → String
  | evaluation cell error => s!"Failed to evaluate cell {cell}: {error.message}"
  | cancelled completed requested =>
    s!"Simulation cancelled after {completed} of {requested} iterations"

/-- The reason with the number of iterations that have been completed, where it tells that. -/
def withCompleted (completed : Nat) : RunError → RunError
  | cancelled _ requested => cancelled completed requested
  | error => error

end RunError

namespace Simulation

/-- The seed of iteration `i` of a run. -/
def iterationSeed (seed : UInt64) (i : UInt64) : UInt64 :=
  seed ^^^ ((i + 1) * 0x9E3779B97F4A7C15)

/-- What comes of running something. There is nothing if it does not end, because the redraws of a
sampler run out. -/
abbrev Outcome (α : Type) := Option (Except RunError α)

/-- Evaluate cells whose predecessors have the values `b`. Each puts its sample into the next slot
of the row; slots without a cell keep what they hold. -/
def fillRow : List Cell → List Number → Bindings → Source → Outcome (List Number)
  | cell :: cells, _ :: slots, b, s =>
    match (cell.expr.eval b).run s with
    | none => none
    | some (.error e, _) => some (.error (.evaluation cell.name e))
    | some (.ok value, s) =>
      match fillRow cells slots (b.set cell.name value) s with
      | some (.ok row) => some (.ok (value.asNumber :: row))
      | failure => failure
  | _, slots, _, _ => some (.ok slots)

/-- Carry out iteration `i`, with its samples put into a row. -/
def runIteration (cells : List Cell) (seed : UInt64) (i : Nat) (row : List Number) :
    Outcome (List Number) :=
  fillRow cells row .empty (.ofSeed (iterationSeed seed (UInt64.ofNat i)))

end Simulation

end EstimateSheet
