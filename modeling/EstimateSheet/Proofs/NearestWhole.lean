import Mathlib.Data.Rat.Floor
import EstimateSheet.Proofs.SignedRounding
import EstimateSheet.Formula.Builtin

/-!
# The nearest whole number

The whole numbers up to `2 ^ 53` are numbers, and a finite number is whole or nearer to zero than
`2 ^ 52` (`units_dvd_or_natAbs_lt`), so rounding down to a whole number is exact (`units_floor`).
What is left above that has to be rounded for some small negative numbers. It is exact if it is less
than a half (`exists_units_emod`), and else it is rounded to no less than a half, so comparing it
with a half is right for all numbers (`le_half_sub_floor_iff`). So rounding to the nearest whole
number gives just that, and of two that are equally near, the larger one (`Builtin.round_toRat`).
-/

namespace EstimateSheet

namespace Number

variable {x : Number}

/-- The value of a finite number. -/
def toRat (x : Number) : ℚ := x.units / oneUnits

theorem natCast_oneUnits_pos : (0 : Int) < oneUnits := Int.natCast_pos.2 oneUnits_pos

theorem units_one : (1 : Number).units = oneUnits := by
  have hone := units_natCast (n := 1) (by decide)
  rwa [Nat.one_mul] at hone

section Whole

theorem two_pow_dvd_units {shift : Nat} (h : 2 ^ (52 + shift) ≤ x.units.natAbs) :
    ((2 ^ shift : Nat) : Int) ∣ x.units := by
  rw [natAbs_units] at h
  rw [Int.natCast_dvd, natAbs_units]
  exact two_pow_dvd_magnitudeUnits h

theorem exists_units_whole {whole : Int} (h : whole.natAbs < 2 ^ 53) :
    ∃ z : Number, z.isFinite = true ∧ z.units = whole * oneUnits := by
  obtain ⟨z, hz, hunits⟩ := exists_units h 1074 (by decide) (decide (whole < 0))
  refine ⟨z, hz, ?_⟩
  rw [hunits, signed_mul, signed_natAbs, ← oneUnits_eq]

/-- A finite number is whole, or nearer to zero than `2 ^ 52`. -/
theorem units_dvd_or_natAbs_lt (x : Number) :
    (oneUnits : Int) ∣ x.units ∨ x.units.natAbs < 2 ^ 52 * oneUnits := by
  rcases Nat.lt_or_ge x.units.natAbs (2 ^ 52 * oneUnits) with hlt | hge
  · exact .inr hlt
  · rw [two_pow_mul_oneUnits] at hge
    rw [oneUnits_eq]
    exact .inl (two_pow_dvd_units hge)

theorem ediv_oneUnits_bounds (h : x.units.natAbs < 2 ^ 52 * oneUnits) :
    -2 ^ 52 ≤ x.units / oneUnits ∧ x.units / oneUnits < 2 ^ 52 := by
  rw [Int.le_ediv_iff_mul_le natCast_oneUnits_pos, Int.ediv_lt_iff_lt_mul natCast_oneUnits_pos]
  omega

theorem exists_units_floor (hx : x.isFinite = true) :
    ∃ z : Number, z.isFinite = true ∧ z.units = x.units / oneUnits * oneUnits := by
  rcases units_dvd_or_natAbs_lt x with hwhole | hsmall
  · exact ⟨x, hx, (Int.ediv_mul_cancel hwhole).symm⟩
  · have hquotient := ediv_oneUnits_bounds hsmall
    exact exists_units_whole (by omega)

/-- Rounding down to a whole number is exact. -/
theorem units_floor (hx : x.isFinite = true) :
    x.floor.units = x.units / oneUnits * oneUnits ∧ x.floor.isFinite = true := by
  obtain ⟨z, hz, hunits⟩ := exists_units_floor hx
  rw [floor, if_pos hx, ← hunits]
  exact units_ofUnits hz x.negative

end Whole

section Fraction

/-- What is left above a whole number is a number if it is less than a half. -/
theorem exists_units_emod (hx : x.isFinite = true) (h : 2 * (x.units % oneUnits) < oneUnits) :
    ∃ z : Number, z.isFinite = true ∧ z.units = x.units % oneUnits := by
  have hpos := natCast_oneUnits_pos
  have hlow := Int.emod_nonneg x.units hpos.ne'
  have hsplit := Int.mul_ediv_add_emod x.units oneUnits
  by_cases hzero : x.units / oneUnits = 0
  · refine ⟨x, hx, ?_⟩
    rw [hzero, Int.mul_zero, Int.zero_add] at hsplit
    exact hsplit.symm
  · -- then the number is at least a half away from zero, so it has no small fraction
    obtain ⟨shift, hshift, hone⟩ : ∃ shift ≤ 2045, oneUnits = 2 ^ (53 + shift) :=
      ⟨1021, by decide, oneUnits_eq.trans (congrArg (2 ^ ·) rfl)⟩
    have hhalf : oneUnits = 2 * 2 ^ (52 + shift) := by
      rw [hone, ← Nat.pow_succ', Nat.succ_add]
    have haway : oneUnits ≤ 2 * x.units.natAbs := by
      rcases Int.lt_or_gt_of_ne hzero with hbelow | habove
      · have hmul := Int.mul_le_mul_of_nonneg_left (Int.le_sub_one_of_lt hbelow) hpos.le
        omega
      · have hmul := Int.mul_le_mul_of_nonneg_left (Int.add_one_le_of_lt habove) hpos.le
        omega
    have hdvd : ((2 ^ shift : Nat) : Int) ∣ x.units := two_pow_dvd_units (by omega)
    have hdvd' : ((2 ^ shift : Nat) : Int) ∣ oneUnits := by
      rw [hone, Int.natCast_dvd_natCast]
      exact Nat.pow_dvd_pow 2 (Nat.le_add_left _ _)
    refine exists_units_of_dvd hshift ?_ ?_
    · rw [← Int.natCast_dvd, Int.dvd_iff_emod_eq_zero, Int.emod_emod_of_dvd _ hdvd']
      exact Int.emod_eq_zero_of_dvd hdvd
    · rw [← hone]
      omega

/-- Rounding down what a half is added to, by the remainder. -/
theorem ediv_add_half (count : Int) {unit : Int} (hpos : 0 < unit) :
    (2 * count + unit) / (2 * unit) =
      if unit ≤ 2 * (count % unit) then count / unit + 1 else count / unit := by
  have hsplit := Int.mul_ediv_add_emod count unit
  have hlow := Int.emod_nonneg count hpos.ne'
  have hhigh := Int.emod_lt_of_pos count hpos
  have hunique {quotient : Int} (rest : Int) (hrest : 0 ≤ rest ∧ rest < 2 * unit)
      (heq : rest + 2 * unit * quotient = 2 * count + unit) :
      (2 * count + unit) / (2 * unit) = quotient :=
    ((Int.ediv_emod_unique (by omega)).2 ⟨heq, hrest⟩).1
  split_ifs with hup
  · refine hunique (2 * (count % unit) - unit) (by omega) ?_
    rw [Int.mul_add, Int.mul_assoc]
    omega
  · refine hunique (2 * (count % unit) + unit) (by omega) ?_
    rw [Int.mul_assoc]
    omega

theorem sub_floor (hx : x.isFinite = true) : x - x.floor =
    ofUnits (x.units % oneUnits) (x.negative && !x.floor.negative) := by
  obtain ⟨hunits, hfinite⟩ := units_floor hx
  rw [sub_of_isFinite hx hfinite, hunits, Int.emod_def, Int.mul_comm]

theorem isFinite_sub_floor (hx : x.isFinite = true) : (x - x.floor).isFinite = true := by
  have hpos := natCast_oneUnits_pos
  have hzero : (zero false).isFinite = true ∧ (zero false).units = 0 := ⟨rfl, rfl⟩
  rw [sub_floor hx]
  refine isFinite_of_place hzero.1 isFinite_one (place_le_place_ofUnits hzero.1 ?_)
    (place_ofUnits_le_place isFinite_one ?_)
  · exact hzero.2.trans_le (Int.emod_nonneg _ hpos.ne')
  · exact (Int.emod_lt_of_pos _ hpos).le.trans_eq units_one.symm

/-- What is left above a whole number is compared with a half as if it were not rounded. -/
theorem le_half_sub_floor_iff (hx : x.isFinite = true) :
    Number.le 0.5 (x - x.floor) = true ↔ (oneUnits : Int) ≤ 2 * (x.units % oneUnits) := by
  obtain ⟨hhalf, hfinite⟩ := magnitudeUnits_half
  have hunits : (0.5 : Number).units = magnitudeUnits (0.5 : Number).magnitude :=
    units_eq_magnitudeUnits rfl
  rw [le_iff_units_le hfinite (isFinite_sub_floor hx), sub_floor hx]
  constructor
  · intro h
    by_contra hlt
    obtain ⟨z, hz, hzunits⟩ := exists_units_emod hx (Int.not_le.1 hlt)
    rw [← hzunits, (units_ofUnits hz _).1] at h
    omega
  · intro h
    exact units_le_units_iff.2 (place_le_place_ofUnits hfinite (by omega))

/-- An infinity has no difference from itself. -/
theorem isNaN_sub_self (hx : ¬ x.isFinite = true) : (x - x).isNaN = true := by
  change (passNaN x x (sumOf x (-x))).isNaN = true
  rw [passNaN]
  split_ifs with hnan
  · exact hnan
  · have hinfinite : x.isInfinite = true := by
      by_contra hnot
      exact hx (isFinite_of_not hnan hnot)
    have hsign : (x.negative != (-x).negative) = true := Bool.bne_not_self _
    rw [sumOf, if_pos hinfinite, if_pos (by rw [hsign, Bool.and_true]; exact hinfinite)]
    decide

end Fraction

end Number

open Number

namespace Builtin

variable {x : Number}

/-- Rounding to a whole number is exact. -/
theorem units_rounded (hx : x.isFinite = true) : (rounded x).isFinite = true ∧
    (rounded x).units = (2 * x.units + oneUnits) / (2 * oneUnits) * oneUnits := by
  obtain ⟨hunits, hfinite⟩ := units_floor hx
  have hiff := le_half_sub_floor_iff hx
  rw [ediv_add_half _ natCast_oneUnits_pos]
  simp only [rounded]
  split_ifs with hle hhalf hhalf
  · -- a number with a fraction is so near to zero that the next whole number is a number
    have hsmall := (units_dvd_or_natAbs_lt x).resolve_left fun hwhole => by
      rw [Int.emod_eq_zero_of_dvd hwhole] at hhalf
      exact Int.not_le.2 natCast_oneUnits_pos hhalf
    have hquotient := ediv_oneUnits_bounds hsmall
    have hnext : (x.units / oneUnits + 1).natAbs < 2 ^ 53 := by omega
    obtain ⟨z, hz, hzunits⟩ := exists_units_whole hnext
    have hadd := units_add hfinite isFinite_one hz (by
      rw [hunits, units_one, hzunits, Int.add_mul, Int.one_mul])
    exact ⟨hadd.2, hadd.1.trans hzunits⟩
  · exact absurd (hiff.1 hle) hhalf
  · exact absurd (hiff.2 hhalf) hle
  · exact ⟨hfinite, hunits⟩

theorem rounded_of_not_isFinite (hx : ¬ x.isFinite = true) : rounded x = x := by
  have hfloor : x.floor = x := if_neg hx
  have hnot : ¬ Number.le 0.5 (x - x) = true := fun hle =>
    Bool.eq_false_iff.1 (le_iff.1 hle).2.1 (isNaN_sub_self hx)
  simp only [rounded, hfloor, if_neg hnot]

/-- Rounding gives the whole number that is the value and a half, rounded down; what is not finite
stays. -/
theorem round_toRat (args : List Value) :
    ((argument args 0).isFinite = true → ∃ whole, round.apply args = pure (.number whole) ∧
      whole.isFinite = true ∧ whole.toRat = ⌊(argument args 0).toRat + 1 / 2⌋) ∧
    (¬ (argument args 0).isFinite = true →
      round.apply args = pure (.number (argument args 0))) := by
  have happly : round.apply args = pure (.number (rounded (argument args 0))) := rfl
  refine ⟨fun hx => ⟨_, happly, (units_rounded hx).1, ?_⟩, fun hx => ?_⟩
  · generalize argument args 0 = x at hx
    have hpos : (0 : ℚ) < oneUnits := Nat.cast_pos.2 oneUnits_pos
    have hsum : x.toRat + 1 / 2 = ((2 * x.units + oneUnits : Int) : ℚ) / (2 * oneUnits : Nat) := by
      rw [toRat]
      push_cast
      field_simp
    rw [hsum, Rat.floor_intCast_div_natCast, toRat, (units_rounded hx).2]
    push_cast
    rw [mul_div_cancel_right₀ _ hpos.ne']
  · rw [happly, rounded_of_not_isFinite hx]

/-- The number before a half, whose sum with a half would be rounded to one, and infinity. -/
theorem round_toRat_below_half :
    let x : Number := ⟨false, 0x3FDFFFFFFFFFFFFF, by decide⟩
    (∃ whole, round.apply [.number x] = pure (.number whole) ∧ whole.isFinite = true ∧
      whole.toRat = ⌊x.toRat + 1 / 2⌋) ∧
    round.apply [.number (infinite true)] = pure (.number (infinite true)) := by
  intro x
  exact ⟨(round_toRat [.number x]).1 (by decide),
    (round_toRat [.number (infinite true)]).2 (not_isFinite_infinite true)⟩

end Builtin

end EstimateSheet
