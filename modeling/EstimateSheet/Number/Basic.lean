/-!
# Binary floating-point numbers

A number is a 64-bit binary floating-point number, held as its sign and its magnitude. The
magnitude is the 63 bits below the sign read as a natural number, so magnitudes stand in order:
`0` is zero, every next one is the next larger number, `infiniteMagnitude` follows the largest
finite one, and what lies above it is not a number.

Every finite number is a whole multiple of the smallest positive one, `2 ^ (-1074)`. Counted in
that unit its exact value is an integer (`Number.units`), and arithmetic is arithmetic on those
integers followed by one rounding.
-/

namespace EstimateSheet

/-- A 64-bit binary floating-point number: its sign, and the 63 bits below the sign as a natural
number. -/
structure Number where
  negative : Bool
  magnitude : Nat
  magnitude_lt : magnitude < 0x8000000000000000
deriving DecidableEq

namespace Number

/-- The numbers of one binade: as many as the 52 bits of a fraction tell apart. -/
def binadeSize : Nat := 0x10000000000000

/-- The magnitude of infinity, the first one whose exponent bits are all set. -/
def infiniteMagnitude : Nat := 0x7FF0000000000000

/-- The number one, counted in the smallest positive number. -/
def oneUnits : Nat := 1 <<< 1074

/-- The exact value of a finite magnitude, counted in the smallest positive number. In the first
binade, below `binadeSize`, the numbers are one unit apart; above it a number carries its leading
bit and the spacing doubles from binade to binade. -/
def magnitudeUnits (magnitude : Nat) : Nat :=
  let binade := magnitude / binadeSize
  if binade = 0 then magnitude
  else (binadeSize + magnitude % binadeSize) <<< (binade - 1)

/-- Neither infinite nor a not-a-number. -/
def isFinite (x : Number) : Bool := x.magnitude < infiniteMagnitude

/-- One of the two infinities. -/
def isInfinite (x : Number) : Bool := x.magnitude == infiniteMagnitude

def isNaN (x : Number) : Bool := infiniteMagnitude < x.magnitude

/-- One of the two zeros. -/
def isZero (x : Number) : Bool := x.magnitude == 0

/-- The exact value of a finite number, counted in the smallest positive number. -/
def units (x : Number) : Int :=
  if x.negative then -(magnitudeUnits x.magnitude : Int) else magnitudeUnits x.magnitude

/-- Zero with the given sign. -/
def zero (negative : Bool) : Number := ⟨negative, 0, by decide⟩

/-- Infinity with the given sign. -/
def infinite (negative : Bool) : Number := ⟨negative, infiniteMagnitude, by decide⟩

/-- The not-a-number that stands for an absent number. Its sign is positive, so it comes after
every number in the total order. -/
def absent : Number := ⟨false, 0x7FF8000000000000, by decide⟩

/-- The not-a-number an operation gives where it has no value, such as `0 / 0`. Its sign is
negative, so it comes before every number in the total order. -/
def undefined : Number := ⟨true, 0x7FF8000000000000, by decide⟩

instance : Inhabited Number := ⟨zero false⟩

/-- The number with the other sign; a not-a-number changes its sign too. -/
protected def neg (x : Number) : Number := ⟨!x.negative, x.magnitude, x.magnitude_lt⟩

instance : Neg Number := ⟨Number.neg⟩

/-- The number without its sign. -/
def abs (x : Number) : Number := ⟨false, x.magnitude, x.magnitude_lt⟩

end Number

end EstimateSheet
