import EstimateSheet.Statistics.Aggregate

/-!
# Summaries

The statistics by which samples are described. Quantiles are samples: they stand at whole positions
of the sorted list, without interpolation.
-/

namespace EstimateSheet

/-- Mean, deviation and some quantiles. The central nine tenths of the samples are between `low` and
`high`. -/
structure Summary where
  mean : Number
  median : Number
  low : Number
  high : Number
  least : Number
  greatest : Number
  deviation : Number
deriving DecidableEq

namespace Summary

/-- The position of the quantile `q` in `count` sorted samples. -/
def position (count : Nat) (q : Number) : Nat :=
  min (((count : Number) * q).floor.toNat) (count - 1)

/-- The summary of some samples, if there are any. -/
def ofSamples? (samples : List Number) : Option Summary :=
  if samples.isEmpty then none
  else
    let sorted := Number.sort samples
    let count := samples.length
    let sample (i : Nat) : Number := sorted.getD i Number.absent
    some {
      mean := Statistics.mean sorted
      median := sample (count / 2)
      low := sample (position count 0.05)
      high := sample (position count 0.95)
      least := sample 0
      greatest := sample (count - 1)
      deviation := Statistics.deviation sorted
    }

end Summary

end EstimateSheet
