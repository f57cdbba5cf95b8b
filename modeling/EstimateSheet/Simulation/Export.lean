import EstimateSheet.Simulation.Run

/-!
# Exported results

The results of a run as plain data for other programs.
-/

namespace EstimateSheet

/-- Plain data. The fields of a record are in order. -/
inductive Datum where
  | null
  | flag (b : Bool)
  | natural (n : Nat)
  | number (x : Number)
  | text (s : String)
  | list (items : List Datum)
  | record (fields : List (String × Datum))

namespace Datum

/-- A number; one that is infinite or not a number is missing from plain data. -/
def ofNumber (x : Number) : Datum := if x.isFinite then number x else null

end Datum

def Sensitivity.toDatum (s : Sensitivity) : Datum :=
  .record [("name", .text s.name), ("slope", .ofNumber s.regression.slope),
    ("intercept", .ofNumber s.regression.intercept),
    ("rSquared", .ofNumber s.regression.rSquared), ("beta", .ofNumber s.regression.beta)]

namespace Simulation

def CellSamples.toDatum (s : CellSamples) : Datum :=
  .record [("name", .text s.name), ("values", .list (s.values.map .ofNumber))]

def Stats.toDatum (s : Stats) : Datum :=
  .record [("iterations", .natural s.iterations), ("cells", .natural s.cells),
    ("stochastic_cells", .natural s.stochasticCells), ("seed", .natural s.seed.toNat),
    ("parallel", .flag s.parallel)]

def Results.toDatum (r : Results) : Datum :=
  .record [("samples", .list (r.samples.map CellSamples.toDatum)),
    ("sensitivities", match r.sensitivities with
      | none => .null
      | some ranking => .list (ranking.map Sensitivity.toDatum)),
    ("stats", r.stats.toDatum)]

end Simulation

end EstimateSheet
