import EstimateSheet.Number.Rounding

/-!
# Whole numbers

Rounding a number down or up to a whole one is exact, and a zero that comes out keeps the sign of
the number it came from.
-/

namespace EstimateSheet

namespace Number

/-- The largest whole number not above `x`; infinities and not-a-numbers stay. -/
def floor (x : Number) : Number :=
  if x.isFinite then ofUnits (x.units / oneUnits * oneUnits) x.negative else x

/-- The smallest whole number not below `x`; infinities and not-a-numbers stay. -/
def ceil (x : Number) : Number := -(-x).floor

/-- The whole part as a natural number of at most 64 bits: what lies above is cut to the largest
one, and negative numbers and not-a-numbers give `0`. -/
def toNat (x : Number) : Nat :=
  if x.isNaN || x.negative then 0
  else if x.isInfinite then 0xFFFFFFFFFFFFFFFF
  else min 0xFFFFFFFFFFFFFFFF (magnitudeUnits x.magnitude / oneUnits)

end Number

end EstimateSheet
