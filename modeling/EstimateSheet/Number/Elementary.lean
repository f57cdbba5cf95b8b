import EstimateSheet.Number.Basic

/-!
# Elementary functions

Square root, exponential, logarithm, sine, cosine, tangent and power are those of the machine's
floating-point library. As in arithmetic, a not-a-number argument is passed on, and where the
function has no value the result is `Number.undefined`.
-/

namespace EstimateSheet

namespace Number

/-- The machine number with the same bits. -/
def toFloat (x : Number) : Float :=
  Float.ofBits (UInt64.ofNat (if x.negative then 0x8000000000000000 + x.magnitude else x.magnitude))

/-- The number with the bits of a machine number; `otherwise` if that is a not-a-number. -/
def ofFloat (otherwise : Number) (f : Float) : Number :=
  if f.isNaN then otherwise
  else
    let bits := f.toBits.toNat
    ⟨0x8000000000000000 ≤ bits, bits % 0x8000000000000000, Nat.mod_lt _ (by decide)⟩

/-- A function of the machine applied to a number. -/
def apply (f : Float → Float) (x : Number) : Number :=
  if x.isNaN then x else ofFloat undefined (f x.toFloat)

def sqrt (x : Number) : Number := x.apply Float.sqrt

def exp (x : Number) : Number := x.apply Float.exp

def log (x : Number) : Number := x.apply Float.log

/-- The sine of an angle in radians. -/
def sin (x : Number) : Number := x.apply Float.sin

/-- The cosine of an angle in radians. -/
def cos (x : Number) : Number := x.apply Float.cos

/-- The tangent of an angle in radians. -/
def tan (x : Number) : Number := x.apply Float.tan

/-- The power. It can have a value although an argument is a not-a-number: `1` to any power and
anything to the power `0` is `1`. -/
def pow (x y : Number) : Number :=
  ofFloat (if x.isNaN then x else if y.isNaN then y else undefined)
    (Float.pow x.toFloat y.toFloat)

/-- The number nearest to the ratio of a circle's circumference to its diameter. -/
def pi : Number := ⟨false, 0x400921FB54442D18, by decide⟩

end Number

end EstimateSheet
