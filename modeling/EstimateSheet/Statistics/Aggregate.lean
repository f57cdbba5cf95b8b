import EstimateSheet.Number.Arithmetic
import EstimateSheet.Number.Elementary
import EstimateSheet.Number.Integral
import EstimateSheet.Number.Order

/-!
# Aggregates

Extrema, mean, deviation, median and percentiles of a list of numbers.
-/

namespace EstimateSheet

namespace Statistics

/-- The first number that none of the list is better than, starting from `worst`; not a number if
the list holds a not-a-number. -/
def extremum (better : Number → Number → Bool) (worst : Number) : List Number → Number
  | [] => worst
  | x :: xs =>
    if x.isNaN then Number.absent
    else extremum better (if better x worst then x else worst) xs

/-- The least number, infinity for the empty list. -/
def minimum (xs : List Number) : Number :=
  extremum (fun x best => x.lt best) (Number.infinite false) xs

/-- The greatest number, negative infinity for the empty list. -/
def maximum (xs : List Number) : Number :=
  extremum (fun x best => best.lt x) (Number.infinite true) xs

def mean (xs : List Number) : Number := Number.sum xs / (xs.length : Number)

/-- The standard deviation of a whole population: the squares are divided by their number. -/
def deviation (xs : List Number) : Number :=
  let m := mean xs
  let squares := xs.map fun x => (x - m) * (x - m)
  (Number.sum squares / (xs.length : Number)).sqrt

/-- The middle number, or half the sum of the two in the middle. -/
def median (xs : List Number) : Number :=
  let sorted := Number.sort xs
  let middle := xs.length / 2
  if xs.length % 2 = 1 then sorted.getD middle Number.absent
  else if xs.isEmpty then Number.absent
  else (sorted.getD (middle - 1) Number.absent + sorted.getD middle Number.absent) / 2

/-- Where the `p`-th percentile of `count` sorted numbers lies, counted from `0`. -/
def percentilePosition (count : Nat) (p : Number) : Number :=
  p / 100 * ((count - 1 : Nat) : Number)

/-- The `p`-th percentile of sorted numbers. Between two positions it is interpolated. -/
def percentileOfSorted (sorted : List Number) (p : Number) : Number :=
  if sorted.isEmpty then Number.absent
  else
    let position := percentilePosition sorted.length p
    let lower := position.floor.toNat
    let upper := position.ceil.toNat
    if lower = upper then sorted.getD lower Number.absent
    else
      let weight := position - (lower : Number)
      sorted.getD lower Number.absent * (1 - weight) + sorted.getD upper Number.absent * weight

/-- The `p`-th percentile, for `p` in `[0, 100]`. -/
def percentile? (p : Number) (xs : List Number) : Option Number :=
  if Number.between 0 100 p then some (percentileOfSorted (Number.sort xs) p) else none

end Statistics

end EstimateSheet
