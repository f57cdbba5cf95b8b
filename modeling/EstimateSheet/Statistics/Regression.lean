import EstimateSheet.Statistics.Aggregate

/-!
# Regression

Least squares regression of a target on a variable, by samples that are paired by their position.
-/

namespace EstimateSheet

/-- The regression of a target on a variable. `beta` is the slope, counted in the standard
deviations of the two. -/
structure Regression where
  slope : Number
  intercept : Number
  rSquared : Number
  beta : Number
deriving DecidableEq

namespace Regression

/-- The variable explains more than half of the target's variance. -/
def isStrong (r : Regression) : Bool := Number.lt 0.5 r.rSquared

/-- Each number's difference from the mean of all. -/
def deviations (xs : List Number) : List Number :=
  let m := Statistics.mean xs
  xs.map (· - m)

/-- The sum of the products of two lists, position by position. -/
def sumOfProducts (xs ys : List Number) : Number :=
  (xs.zip ys).foldl (fun s (x, y) => s + x * y) 0

/-- The regression of `target` on `variable`. There is none of lists of different lengths, of empty
ones, on a constant variable, or where a statistic comes out infinite or not a number. -/
def of? (target samples : List Number) : Option Regression :=
  if target.length != samples.length || target.isEmpty then none
  else
    let count : Number := target.length
    let dx := deviations samples
    let dy := deviations target
    let xx := sumOfProducts dx dx
    let yy := sumOfProducts dy dy
    let xy := sumOfProducts dx dy
    if xx.eq 0 then none
    else
      let slope := xy / xx
      let intercept := Statistics.mean target - slope * Statistics.mean samples
      let rSquared := (xy * xy) / (xx * yy)
      let spreadX := (xx / (count - 1)).sqrt
      let spreadY := (yy / (count - 1)).sqrt
      let beta := slope * (spreadX / spreadY)
      if [slope, intercept, rSquared, beta].all Number.isFinite then
        some ⟨slope, intercept, rSquared, beta⟩
      else none

end Regression

end EstimateSheet
