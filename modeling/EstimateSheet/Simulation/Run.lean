import EstimateSheet.Simulation.Iteration
import EstimateSheet.Statistics.Ranking
import EstimateSheet.Statistics.Summary

/-!
# Runs

A run evaluates a document many times and keeps a sample of every cell from every iteration. It
carries out the iterations one after the other with a row that they share, or has a pool carry them
out, each with a row of its own; then the rows are put in order. If an iteration fails the run
stops. Before every iteration it is checked whether the run has been cancelled.
-/

namespace EstimateSheet

namespace Simulation

/-- What is asked of a run. -/
structure Options where
  iterations : Nat := 10000
  seed : UInt64 := 0
  /-- The cell whose sensitivities are wanted. -/
  target : Option String := none
  maxSensitivities : Nat := 5
  /-- Iterations may be carried out at the same time. -/
  parallel : Bool := false

/-- The samples of one cell, one from each iteration. -/
structure CellSamples where
  name : String
  values : List Number
deriving DecidableEq

/-- What a run has done. -/
structure Stats where
  iterations : Nat
  cells : Nat
  stochasticCells : Nat
  seed : UInt64
  parallel : Bool
deriving DecidableEq

/-- What a run gives. -/
structure Results where
  samples : List CellSamples
  /-- The ranking for the target, if that is a cell. -/
  sensitivities : Option (List Sensitivity)
  stats : Stats

namespace Results

def names (r : Results) : List String := r.samples.map (·.name)

def get? (r : Results) (name : String) : Option (List Number) :=
  (r.samples.find? (·.name == name)).map (·.values)

def summary? (r : Results) (name : String) : Option Summary := (r.get? name).bind Summary.ofSamples?

end Results

/-- A row with a slot for every cell and no samples in it yet. -/
def emptyRow (cells : List Cell) : List Number := List.replicate cells.length 0

/-- A column without samples for every cell. Memory is taken as unlimited, so there is room in them
for the samples of any number of iterations. -/
def emptyColumns (cells : List Cell) : List (Array Number) := List.replicate cells.length #[]

/-- Columns with the samples of a row added at their ends. -/
def pushRow : List (Array Number) → List Number → List (Array Number)
  | column :: columns, x :: row => column.push x :: pushRow columns row
  | columns, _ => columns

section

variable (cells : List Cell) (seed : UInt64) (iterations : Nat) (cancelled : Nat → Bool)

/-- Carry out the iterations of a list one after the other. They all use the same row, and add it to
the columns. -/
def runFrom : List Nat → List Number → List (Array Number) → Outcome (List (Array Number))
  | [], _, columns => some (.ok columns)
  | i :: rest, row, columns =>
    if cancelled i then some (.error (.cancelled i iterations))
    else
      match runIteration cells seed i row with
      | none => none
      | some (.error e) => some (.error e)
      | some (.ok row) => runFrom rest row (pushRow columns row)

/-- The columns of a run that carries out its iterations in order. -/
def runSequential : Outcome (List (Array Number)) :=
  runFrom cells seed iterations cancelled (List.range iterations) (emptyRow cells)
    (emptyColumns cells)

/-- Carry out an iteration on its own, with a row of its own. -/
def runAlone (i : Nat) : Outcome (List Number) :=
  if cancelled i then some (.error (.cancelled 0 iterations))
  else runIteration cells seed i (emptyRow cells)

/-- The rows of iterations, put in the order of their numbers; nothing if one is missing. -/
def inOrder (rows : List (Nat × List Number)) : Option (List (List Number)) :=
  (rows.foldl (fun table (i, row) => table.setIfInBounds i (some row))
    (Array.replicate iterations none)).toList.mapM id

/-- The columns of a run that has its iterations carried out by a pool. The schedule holds those
which the pool carries out, in the order in which they end. If some fail the first of them counts,
and how many have been completed is known in the end. A pool that neither carries out all iterations
nor has one that fails does not end. -/
def runParallel (schedule : List Nat) : Outcome (List (Array Number)) :=
  match schedule.mapM (m := Option) (runAlone cells seed iterations cancelled) with
  | none => none
  | some outcomes =>
    match outcomes.mapM id with
    | .error e => some (.error (e.withCompleted (outcomes.countP Except.isOk)))
    | .ok rows =>
      (inOrder iterations (schedule.zip rows)).map fun table =>
        .ok (table.foldl pushRow (emptyColumns cells))

end

/-- The ranking of the other cells for a target, if that is a cell. -/
def sensitivities? (samples : List CellSamples) (target : String) (limit : Nat) :
    Option (List Sensitivity) :=
  (samples.find? (·.name == target)).map fun found =>
    Sensitivity.rank found.values
      ((samples.filter (·.name != target)).map fun s => (s.name, s.values)) limit

end Simulation

open Simulation

namespace Document

/-- The results of a run that ends with these columns. -/
def results (d : Document) (options : Options) (columns : List (Array Number)) : Results :=
  let samples := d.cells.zipWith (fun cell column => ⟨cell.name, column.toList⟩) columns
  { samples
    sensitivities := options.target.bind (sensitivities? samples · options.maxSensitivities)
    stats := {
      iterations := options.iterations
      cells := d.cells.length
      stochasticCells := d.cells.countP (·.expr.isStochastic)
      seed := options.seed
      parallel := options.parallel } }

/-- Simulate a document. The check before iteration `i` sees `cancelled i`, and a pool carries out
the iterations of the schedule. It gives nothing if it does not end. -/
def simulateOn (d : Document) (options : Options) (cancelled : Nat → Bool) (schedule : List Nat) :
    Outcome Results :=
  let outcome :=
    if options.parallel then
      runParallel d.cells options.seed options.iterations cancelled schedule
    else runSequential d.cells options.seed options.iterations cancelled
  outcome.map (·.map (d.results options))

/-- Simulate a document, perhaps cancelled before it starts, with iterations that end in order. -/
def simulate (d : Document) (options : Options) (cancelled : Bool) : Outcome Results :=
  d.simulateOn options (fun _ => cancelled) (List.range options.iterations)

end Document

end EstimateSheet
