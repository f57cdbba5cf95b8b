import EstimateSheet.Number.Rounding

/-!
# Arithmetic

Each operation takes the exact result and rounds it once. A not-a-number operand is passed on, the
left one first; an operation without a value, such as `0 / 0` or the difference of two equal
infinities, gives `Number.undefined`.
-/

namespace EstimateSheet

namespace Number

/-- What an operation gives when one of its operands is a not-a-number: that operand, the left one
first. `otherwise` is its result when none is. -/
def passNaN (x y otherwise : Number) : Number :=
  if x.isNaN then x else if y.isNaN then y else otherwise

/-- The sum of two numbers neither of which is a not-a-number. -/
def sumOf (x y : Number) : Number :=
  if x.isInfinite then
    if y.isInfinite && x.negative != y.negative then undefined else x
  else if y.isInfinite then y
  else ofUnits (x.units + y.units) (x.negative && y.negative)

protected def add (x y : Number) : Number := passNaN x y (sumOf x y)

protected def sub (x y : Number) : Number := passNaN x y (sumOf x (-y))

/-- The product. An infinity times a zero has no value. -/
protected def mul (x y : Number) : Number :=
  let negative := x.negative != y.negative
  passNaN x y <|
    if x.isInfinite || y.isInfinite then
      if x.isZero || y.isZero then undefined else infinite negative
    else
      ofRatio negative (magnitudeUnits x.magnitude * magnitudeUnits y.magnitude) oneUnits

/-- The quotient. A zero divides what is not zero to infinity. -/
protected def div (x y : Number) : Number :=
  let negative := x.negative != y.negative
  passNaN x y <|
    if x.isInfinite then
      if y.isInfinite then undefined else infinite negative
    else if y.isInfinite then zero negative
    else if y.isZero then
      if x.isZero then undefined else infinite negative
    else
      ofRatio negative (magnitudeUnits x.magnitude * oneUnits) (magnitudeUnits y.magnitude)

/-- The remainder of the division that rounds toward zero. It is exact and has the sign of `x`. -/
protected def mod (x y : Number) : Number :=
  passNaN x y <|
    if x.isInfinite || y.isZero then undefined
    else if y.isInfinite then x
    else ofRatio x.negative (magnitudeUnits x.magnitude % magnitudeUnits y.magnitude) 1

instance : Add Number := ⟨Number.add⟩
instance : Sub Number := ⟨Number.sub⟩
instance : Mul Number := ⟨Number.mul⟩
instance : Div Number := ⟨Number.div⟩
instance : Mod Number := ⟨Number.mod⟩

/-- The sum from left to right. It starts at the negative zero, which adds nothing to any number,
so the sum of negative zeros is one too. -/
def sum (xs : List Number) : Number := xs.foldl (· + ·) (zero true)

end Number

end EstimateSheet
