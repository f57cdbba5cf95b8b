import EstimateSheet.Number.Arithmetic
import EstimateSheet.Number.Elementary
import EstimateSheet.Number.Order
import EstimateSheet.Random.Source

/-!
# Distributions

Samplers for the distributions that formulas draw from.
-/

namespace EstimateSheet

namespace Sampler

/-- The number in `[0, 1)` of the upper 53 bits of a word. -/
def unitOfWord (w : UInt64) : Number :=
  Number.ofRatio false ((w >>> 11).toNat * Number.oneUnits) 0x20000000000000

/-- Uniform in `[0, 1)`. -/
def unit : Sampler Number := unitOfWord <$> word

/-- Uniform in `(0, 1)`. -/
def openUnit : Sampler Number := redraw (fun x => !x.isZero) unit redrawLimit

/-- Normal with mean `0` and deviation `1`, by the Box-Muller transform. -/
def standardNormal : Sampler Number := do
  let u ← openUnit
  let v ← openUnit
  pure ((-2 * u.log).sqrt * (2 * Number.pi * v).cos)

/-- Normal with the given mean and standard deviation. -/
def normal (mean deviation : Number) : Sampler Number := do
  let z ← standardNormal
  pure (z * deviation + mean)

/-- Bell-shaped within `[0, 1]`: normal around the middle with deviation `0.1`, drawn again when it
falls outside. -/
def bell : Sampler Number :=
  redraw (Number.between 0 1) (do pure ((← standardNormal) / 10 + 0.5)) redrawLimit

/-- Bell-shaped within `[low, high]`. -/
def boundedNormal (low high : Number) : Sampler Number := do
  let x ← bell
  pure (low + (high - low) * x)

/-- Uniform in `[low, high)`. -/
def uniform (low high : Number) : Sampler Number := do
  let u ← unit
  pure (u * (high - low) + low)

/-- The triangular sample at the quantile `u`. -/
def triangularQuantile (low mode high u : Number) : Number :=
  let split := (mode - low) / (high - low)
  if u.lt split then low + (u * (high - low) * (mode - low)).sqrt
  else high - ((1 - u) * (high - low) * (high - mode)).sqrt

/-- Triangular on `[low, high]` with its peak at `mode`. -/
def triangular (low mode high : Number) : Sampler Number := do
  let u ← unit
  pure (triangularQuantile low mode high u)

end Sampler

end EstimateSheet
