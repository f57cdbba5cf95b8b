import EstimateSheet.Number.Basic

/-!
# Comparing numbers

Two orders. The numeric comparisons `lt`, `le` and `eq` see the two zeros as equal and are false
when a not-a-number takes part. The total order `totalLe` tells all numbers apart: not-a-numbers
with a negative sign come first and those with a positive sign last, and the negative zero comes
before the positive one.
-/

namespace EstimateSheet

namespace Number

/-- The place of a number on the line, counted in magnitudes; both zeros are at `0`. -/
def place (x : Number) : Int := if x.negative then -(x.magnitude : Int) else x.magnitude

/-- Numerically smaller. -/
def lt (x y : Number) : Bool := !x.isNaN && !y.isNaN && x.place < y.place

/-- Numerically smaller or equal. -/
def le (x y : Number) : Bool := !x.isNaN && !y.isNaN && x.place ≤ y.place

/-- Numerically equal. -/
def eq (x y : Number) : Bool := !x.isNaN && !y.isNaN && x.place == y.place

/-- Within `[low, high]`. -/
def between (low high x : Number) : Bool := low.le x && x.le high

/-- The place of a number in the total order: negative ones count down from `-1`. -/
def totalPlace (x : Number) : Int := if x.negative then -(x.magnitude : Int) - 1 else x.magnitude

/-- Comes before or at the same place in the total order. -/
def totalLe (x y : Number) : Bool := x.totalPlace ≤ y.totalPlace

/-- The numbers in total order. -/
def sort (xs : List Number) : List Number := xs.mergeSort totalLe

theorem place_eq_magnitude {x : Number} (h : x.negative = false) : x.place = x.magnitude := by
  rw [place, h, if_neg Bool.false_ne_true]

/-- The place in the total order tells numbers apart. -/
theorem totalPlace_inj {x y : Number} : x.totalPlace = y.totalPlace ↔ x = y := by
  refine ⟨fun h => ?_, fun h => h ▸ rfl⟩
  obtain ⟨a, m, hm⟩ := x
  obtain ⟨b, n, hn⟩ := y
  have hab : a = b ∧ m = n := by
    cases a <;> cases b <;> simp [totalPlace] at h ⊢ <;> omega
  obtain ⟨rfl, rfl⟩ := hab
  rfl

end Number

end EstimateSheet
