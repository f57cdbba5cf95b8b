import EstimateSheet.Number.Basic

/-!
# Rounding to the nearest number

An exact value is given as a ratio counted in the smallest positive number. It is rounded once,
to the nearest number; of two that are equally near, to the one whose magnitude is even. A ratio
beyond the largest finite number by half a step or more rounds to infinity.
-/

namespace EstimateSheet

namespace Number

/-- Ten to the power `n`. -/
def powerOfTen (n : Nat) : Nat := Nat.pow 10 n

/-- The magnitude nearest to `num / den`. The quotient is cut to 53 bits: `binade` is the count of
the bits given up, and a step is the distance of neighbouring numbers there. As magnitudes are in
order, a quotient that rounds up to the next binade needs no case of its own. -/
def nearestMagnitude (num den : Nat) : Nat :=
  let binade := (num / den).log2 - 52
  let step := den <<< binade
  let quotient := num / step
  let rest := num % step
  let up := step < 2 * rest || (2 * rest == step && quotient % 2 == 1)
  min infiniteMagnitude (binade * binadeSize + if up then quotient + 1 else quotient)

/-- A nearest magnitude fits below the sign. -/
theorem nearestMagnitude_lt (num den : Nat) : nearestMagnitude num den < 0x8000000000000000 :=
  Nat.lt_of_le_of_lt (Nat.min_le_left ..) (by decide)

/-- The number nearest to `num / den`, counted in the smallest positive number, with a sign. -/
def ofRatio (negative : Bool) (num den : Nat) : Number :=
  ⟨negative, nearestMagnitude num den, nearestMagnitude_lt num den⟩

/-- The number nearest to an integer count of units; `zeroNegative` is the sign of a zero. -/
def ofUnits (count : Int) (zeroNegative : Bool) : Number :=
  if count = 0 then zero zeroNegative else ofRatio (count < 0) count.natAbs 1

/-- The number nearest to a natural number. -/
protected def ofNat (n : Nat) : Number := ofRatio false (n * oneUnits) 1

/-- The number nearest to `digits / 10 ^ places`. -/
def ofDecimal (digits places : Nat) : Number :=
  ofRatio false (digits * oneUnits) (powerOfTen places)

instance (n : Nat) : OfNat Number n := ⟨Number.ofNat n⟩

instance : NatCast Number := ⟨Number.ofNat⟩

instance : OfScientific Number where
  ofScientific mantissa below exponent :=
    if below then ofDecimal mantissa exponent else Number.ofNat (mantissa * powerOfTen exponent)

end Number

end EstimateSheet
