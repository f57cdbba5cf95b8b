import EstimateSheet.Statistics.Aggregate

/-!
# Histograms

How many samples fall into each of some buckets of equal width. The buckets span the samples, and
the greatest sample is in the last one. If the width is not positive, which is so when all
samples are equal, all of them are in the first one.
-/

namespace EstimateSheet

/-- The span of some samples, the width of a bucket, and how many samples each bucket holds. -/
structure Histogram where
  least : Number
  greatest : Number
  width : Number
  counts : List Nat
deriving DecidableEq

namespace Histogram

/-- The least of some samples. Not-a-numbers do not count. -/
def leastOf (samples : List Number) : Number :=
  samples.foldl (fun least x => if x.lt least then x else least) (Number.infinite false)

/-- The greatest of some samples. Not-a-numbers do not count. -/
def greatestOf (samples : List Number) : Number :=
  samples.foldl (fun greatest x => if greatest.lt x then x else greatest) (Number.infinite true)

/-- The bucket of a sample. -/
def bucket (least width : Number) (buckets : Nat) (x : Number) : Nat :=
  if Number.lt 0 width then min (((x - least) / width).floor.toNat) (buckets - 1) else 0

/-- How often each number below `size` is in a list. -/
def tally (size : Nat) (indices : List Nat) : List Nat :=
  (indices.foldl (fun counts i => counts.modify i (· + 1)) (Array.replicate size 0)).toList

/-- The histogram of some samples, if there are any and there is a bucket for them. Memory is taken
as unlimited, so there is room for the counts of any number of buckets. -/
def ofSamples? (samples : List Number) (buckets : Nat) : Option Histogram :=
  if samples.isEmpty || buckets = 0 then none
  else
    let least := leastOf samples
    let greatest := greatestOf samples
    let width := (greatest - least) / (buckets : Number)
    some ⟨least, greatest, width, tally buckets (samples.map (bucket least width buckets))⟩

/-- The lower and the upper end of a bucket. -/
def bounds (h : Histogram) (i : Nat) : Number × Number :=
  let lower := h.least + (i : Number) * h.width
  (lower, lower + h.width)

end Histogram

end EstimateSheet
