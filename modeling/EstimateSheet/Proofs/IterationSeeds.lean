import EstimateSheet.Simulation.Iteration
import Mathlib.Logic.Function.Basic

/-!
# The seeds of iterations

The number that the seed of an iteration is made with is odd, so multiplying by it can be undone
modulo `2 ^ 64`, as can adding and the exclusive or. Hence the number of an iteration can be
told from the seed of the run and that of the iteration (`iterationOf_iterationSeed`), every word is
the seed of some iteration (`iterationSeed_iterationOf`), and no two iterations of a run have the
same one (`iterationSeed_bijective`).
-/

namespace EstimateSheet

namespace Simulation

/-- The inverse of the multiplier in `iterationSeed`, modulo `2 ^ 64`. -/
def seedDivisor : UInt64 := 0xF1DE83E19937733D

theorem multiplier_mul_seedDivisor : (0x9E3779B97F4A7C15 : UInt64) * seedDivisor = 1 := by decide

theorem seedDivisor_mul_multiplier : seedDivisor * (0x9E3779B97F4A7C15 : UInt64) = 1 := by decide

/-- The number of the iteration that has a seed in a run. -/
def iterationOf (seed derived : UInt64) : UInt64 := (seed ^^^ derived) * seedDivisor - 1

theorem xor_xor_cancel (a b : UInt64) : a ^^^ (a ^^^ b) = b := by
  rw [← UInt64.xor_assoc, UInt64.xor_self, UInt64.zero_xor]

theorem iterationOf_iterationSeed (seed i : UInt64) :
    iterationOf seed (iterationSeed seed i) = i := by
  rw [iterationOf, iterationSeed, xor_xor_cancel, UInt64.mul_assoc, multiplier_mul_seedDivisor,
    UInt64.mul_one, UInt64.add_sub_cancel]

theorem iterationSeed_iterationOf (seed derived : UInt64) :
    iterationSeed seed (iterationOf seed derived) = derived := by
  rw [iterationOf, iterationSeed, UInt64.sub_add_cancel, UInt64.mul_assoc,
    seedDivisor_mul_multiplier, UInt64.mul_one, xor_xor_cancel]

/-- The seed of the run, told from that of an iteration. -/
theorem xor_iterationSeed (seed i : UInt64) :
    iterationSeed (iterationSeed seed i) i = seed := by
  simp only [iterationSeed, UInt64.xor_assoc, UInt64.xor_self, UInt64.xor_zero]

/-- In a run every word is the seed of exactly one iteration, and runs with different seeds give
different ones to the iterations with the same number. So no two iterations of a run that have
numbers below `2 ^ 64` start from the same seed. -/
theorem iterationSeed_bijective :
    (∀ seed, Function.Bijective (iterationSeed seed)) ∧
    (∀ i, Function.Bijective (iterationSeed · i)) ∧
    ∀ seed (i j : Nat), i < UInt64.size → j < UInt64.size → i ≠ j →
      iterationSeed seed (UInt64.ofNat i) ≠ iterationSeed seed (UInt64.ofNat j) := by
  have hleft : ∀ seed, Function.LeftInverse (iterationOf seed) (iterationSeed seed) :=
    iterationOf_iterationSeed
  refine ⟨fun seed => ⟨(hleft seed).injective, ?_⟩, fun i => ?_, fun seed i j hi hj hne heq => ?_⟩
  · exact fun derived => ⟨iterationOf seed derived, iterationSeed_iterationOf seed derived⟩
  · have hself : Function.Involutive (iterationSeed · i) := fun seed => xor_iterationSeed seed i
    exact hself.bijective
  · have hword := congrArg UInt64.toNat ((hleft seed).injective heq)
    rw [UInt64.toNat_ofNat_of_lt' hi, UInt64.toNat_ofNat_of_lt' hj] at hword
    exact hne hword

/-- In the last iteration the sum wraps to zero, so it has the seed of the run. -/
theorem iterationSeed_last_ne :
    iterationSeed 7 (UInt64.ofNat 0xFFFFFFFFFFFFFFFF) = 7 ∧
      iterationSeed 7 (UInt64.ofNat 0xFFFFFFFFFFFFFFFF) ≠ iterationSeed 7 (UInt64.ofNat 0) :=
  ⟨by decide,
    iterationSeed_bijective.2.2 7 0xFFFFFFFFFFFFFFFF 0 (by decide) (by decide) (by decide)⟩

end Simulation

end EstimateSheet
