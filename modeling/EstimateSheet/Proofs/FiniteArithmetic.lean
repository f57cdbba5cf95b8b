import EstimateSheet.Number.Arithmetic
import EstimateSheet.Proofs.RoundingBounds

/-!
# Finite and positive numbers

A result is finite only if its operands are, apart from what is divided by an infinity
(`isFinite_of_add`, `isFinite_of_mul`, `isFinite_of_div`). Of finite operands each operation is the
exact result, rounded once, so it is exact where that is the exact value of a number
(`ofUnits_units`, `units_add`). Numbers that count are exact (`units_natCast`). Sums, products and
quotients of positive numbers are positive as long as they do not fall below the least one, and
infinity counts as one of them (`Positive`).
-/

namespace EstimateSheet

namespace Number

variable {x y z : Number}

theorem isFinite_iff : x.isFinite = true ↔ x.magnitude < infiniteMagnitude := by
  simp [isFinite]

theorem not_isFinite_of_isNaN (h : x.isNaN = true) : ¬ x.isFinite = true := by
  rw [isFinite_iff, Nat.not_lt]
  exact (of_decide_eq_true h).le

theorem isNaN_eq_false (h : x.isFinite = true) : x.isNaN = false :=
  Bool.eq_false_iff.2 fun hnan => not_isFinite_of_isNaN hnan h

theorem not_isFinite_of_isInfinite (h : x.isInfinite = true) : ¬ x.isFinite = true := by
  rw [isFinite_iff, beq_iff_eq.1 h]
  exact Nat.lt_irrefl _

/-- What is no larger than a finite number is finite. -/
theorem isFinite_of_magnitude_le (h : x.magnitude ≤ y.magnitude) (hy : y.isFinite = true) :
    x.isFinite = true :=
  isFinite_iff.2 (h.trans_lt (isFinite_iff.1 hy))

theorem not_isFinite_undefined : ¬ undefined.isFinite = true := by decide

theorem not_isFinite_infinite (negative : Bool) : ¬ (infinite negative).isFinite = true :=
  not_isFinite_of_isInfinite (beq_iff_eq.2 rfl)

/-- What is neither infinite nor a not-a-number is finite. -/
theorem isFinite_of_not (hnan : ¬ x.isNaN = true) (hinfinite : ¬ x.isInfinite = true) :
    x.isFinite = true := by
  rw [isNaN, decide_eq_true_eq] at hnan
  rw [isInfinite, beq_iff_eq] at hinfinite
  rw [isFinite_iff]
  omega

theorem eq_infinite (h : x.isInfinite = true) : x = infinite x.negative := by
  obtain ⟨negative, magnitude, hlt⟩ := x
  obtain rfl : magnitude = infiniteMagnitude := beq_iff_eq.1 h
  rfl

theorem isFinite_passNaN (h : (passNaN x y z).isFinite = true) :
    ¬ x.isNaN = true ∧ ¬ y.isNaN = true ∧ z.isFinite = true := by
  unfold passNaN at h
  split_ifs at h with hx hy
  · exact absurd h (not_isFinite_of_isNaN hx)
  · exact absurd h (not_isFinite_of_isNaN hy)
  · exact ⟨hx, hy, h⟩

theorem passNaN_of_isFinite (hx : x.isFinite = true) (hy : y.isFinite = true) :
    passNaN x y z = z := by
  unfold passNaN
  rw [if_neg fun h => not_isFinite_of_isNaN h hx, if_neg fun h => not_isFinite_of_isNaN h hy]

section Finite

theorem isFinite_sumOf (hx : ¬ x.isNaN = true) (hy : ¬ y.isNaN = true)
    (h : (sumOf x y).isFinite = true) : x.isFinite = true ∧ y.isFinite = true := by
  unfold sumOf at h
  split_ifs at h with hxi hyi hyi
  · exact absurd h not_isFinite_undefined
  · exact absurd h (not_isFinite_of_isInfinite hxi)
  · exact absurd h (not_isFinite_of_isInfinite hyi)
  · exact ⟨isFinite_of_not hx hxi, isFinite_of_not hy hyi⟩

/-- Only finite numbers have a finite sum. -/
theorem isFinite_of_add (h : (x + y).isFinite = true) : x.isFinite = true ∧ y.isFinite = true := by
  obtain ⟨hx, hy, h⟩ := isFinite_passNaN h
  exact isFinite_sumOf hx hy h

theorem isFinite_of_sub (h : (x - y).isFinite = true) : x.isFinite = true ∧ y.isFinite = true := by
  obtain ⟨hx, hy, h⟩ := isFinite_passNaN h
  exact isFinite_sumOf (y := -y) hx hy h

/-- Only finite numbers have a finite product. -/
theorem isFinite_of_mul (h : (x * y).isFinite = true) : x.isFinite = true ∧ y.isFinite = true := by
  obtain ⟨hx, hy, h⟩ := isFinite_passNaN h
  split_ifs at h with hinfinite hzero
  · exact absurd h not_isFinite_undefined
  · exact absurd h (not_isFinite_infinite _)
  · rw [Bool.or_eq_true, not_or] at hinfinite
    exact ⟨isFinite_of_not hx hinfinite.1, isFinite_of_not hy hinfinite.2⟩

/-- A quotient is finite only of a finite number, and not by a zero. -/
theorem isFinite_of_div (h : (x / y).isFinite = true) :
    x.isFinite = true ∧ ¬ y.isNaN = true ∧ ¬ y.isZero = true := by
  obtain ⟨hx, hy, h⟩ := isFinite_passNaN h
  split_ifs at h with hxi hyi hyi hyz hxz
  · exact absurd h not_isFinite_undefined
  · exact absurd h (not_isFinite_infinite _)
  · refine ⟨isFinite_of_not hx hxi, hy, fun hzero => ?_⟩
    have hne : infiniteMagnitude ≠ 0 := by decide
    exact hne ((beq_iff_eq.1 hyi).symm.trans (beq_iff_eq.1 hzero))
  · exact absurd h not_isFinite_undefined
  · exact absurd h (not_isFinite_infinite _)
  · exact ⟨isFinite_of_not hx hxi, hy, hyz⟩

/-- A product with a zero is a zero or has no value. -/
theorem isZero_or_isNaN_mul (h : y.isZero = true) :
    (x * y).isZero = true ∨ (x * y).isNaN = true := by
  change (passNaN x y _).isZero = true ∨ (passNaN x y _).isNaN = true
  unfold passNaN
  split_ifs with hx hy hinfinite hzero
  · exact .inr hx
  · exact .inr hy
  · exact .inr (by decide)
  · simp [h] at hzero
  · refine .inl (beq_iff_eq.2 (Nat.le_zero.1 ?_))
    rw [beq_iff_eq.1 h]
    exact nearestMagnitude_le oneUnits_pos (Nat.zero_le _)

end Finite

section Exact

theorem magnitudeUnits_eq_zero_iff {magnitude : Nat} :
    magnitudeUnits magnitude = 0 ↔ magnitude = 0 := by
  refine ⟨fun h => ?_, fun h => by rw [h]; rfl⟩
  by_contra hne
  have hpos := Nat.mul_pos (significand_pos (Nat.pos_of_ne_zero hne))
    (Nat.two_pow_pos (magnitude / binadeSize - 1))
  rw [← magnitudeUnits_eq_significand] at hpos
  omega

theorem magnitudeUnits_pos (h : ¬ x.isZero = true) : 0 < magnitudeUnits x.magnitude :=
  Nat.pos_of_ne_zero fun hzero => h (beq_iff_eq.2 (magnitudeUnits_eq_zero_iff.1 hzero))

theorem units_eq_magnitudeUnits (h : x.negative = false) :
    x.units = magnitudeUnits x.magnitude := by
  rw [units, h, if_neg Bool.false_ne_true]

theorem natAbs_units : x.units.natAbs = magnitudeUnits x.magnitude := by
  unfold units
  split_ifs <;> omega

theorem units_eq_zero_iff : x.units = 0 ↔ x.isZero = true := by
  rw [← Int.natAbs_eq_zero, natAbs_units, magnitudeUnits_eq_zero_iff, isZero, beq_iff_eq]

theorem units_neg : (-x).units = -x.units := by
  change (if (!x.negative) = true then _ else _) = -(if x.negative = true then _ else _)
  cases x.negative
  · simp; rfl
  · simp; rfl

theorem decide_units_neg (h : ¬ x.isZero = true) : decide (x.units < 0) = x.negative := by
  have hpos := magnitudeUnits_pos h
  unfold units
  cases x.negative
  · simp
  · simpa using hpos

/-- An exact value that is that of a number is rounded to this number. -/
theorem ofUnits_units (h : x.isFinite = true) (hne : ¬ x.isZero = true) (zeroNegative : Bool) :
    ofUnits x.units zeroNegative = x := by
  rw [ofUnits, if_neg fun hzero => hne (units_eq_zero_iff.1 hzero), ofRatio]
  simp only [natAbs_units, nearestMagnitude_units (isFinite_iff.1 h), decide_units_neg hne]

theorem sumOf_of_isFinite (hx : x.isFinite = true) (hy : y.isFinite = true) :
    sumOf x y = ofUnits (x.units + y.units) (x.negative && y.negative) := by
  rw [sumOf, if_neg fun h => not_isFinite_of_isInfinite h hx,
    if_neg fun h => not_isFinite_of_isInfinite h hy]

theorem add_of_isFinite (hx : x.isFinite = true) (hy : y.isFinite = true) :
    x + y = ofUnits (x.units + y.units) (x.negative && y.negative) :=
  (passNaN_of_isFinite hx hy).trans (sumOf_of_isFinite hx hy)

theorem sub_of_isFinite (hx : x.isFinite = true) (hy : y.isFinite = true) :
    x - y = ofUnits (x.units - y.units) (x.negative && !y.negative) := by
  refine (passNaN_of_isFinite hx hy).trans ((sumOf_of_isFinite (y := -y) hx hy).trans ?_)
  rw [units_neg]
  rfl

theorem mul_of_isFinite (hx : x.isFinite = true) (hy : y.isFinite = true) :
    x * y = ofRatio (x.negative != y.negative)
      (magnitudeUnits x.magnitude * magnitudeUnits y.magnitude) oneUnits := by
  refine (passNaN_of_isFinite hx hy).trans (if_neg ?_)
  rw [Bool.or_eq_true, not_or]
  exact ⟨fun h => not_isFinite_of_isInfinite h hx, fun h => not_isFinite_of_isInfinite h hy⟩

theorem div_of_isFinite (hx : x.isFinite = true) (hy : y.isFinite = true)
    (hne : ¬ y.isZero = true) : x / y = ofRatio (x.negative != y.negative)
      (magnitudeUnits x.magnitude * oneUnits) (magnitudeUnits y.magnitude) := by
  refine (passNaN_of_isFinite hx hy).trans ?_
  rw [if_neg fun h => not_isFinite_of_isInfinite h hx,
    if_neg fun h => not_isFinite_of_isInfinite h hy, if_neg hne]

/-- A sum that is the exact value of a number is not rounded. -/
theorem units_add (hx : x.isFinite = true) (hy : y.isFinite = true) (hz : z.isFinite = true)
    (h : x.units + y.units = z.units) : (x + y).units = z.units ∧ (x + y).isFinite = true := by
  rw [add_of_isFinite hx hy, h]
  by_cases hzero : z.isZero = true
  · rw [units_eq_zero_iff.2 hzero]
    exact ⟨units_eq_zero_iff.2 rfl, rfl⟩
  · rw [ofUnits_units hz hzero]
    exact ⟨rfl, hz⟩

/-- A ratio that comes to the exact value of a number is not rounded. -/
theorem nearestMagnitude_units_mul (h : x.isFinite = true) {k : Nat} (hk : 0 < k) :
    nearestMagnitude (magnitudeUnits x.magnitude * k) k = x.magnitude := by
  have hmul := nearestMagnitude_mul (magnitudeUnits x.magnitude) 1 hk
  rwa [Nat.one_mul, nearestMagnitude_units (isFinite_iff.1 h)] at hmul

theorem mul_comm_of_isFinite (hx : x.isFinite = true) (hy : y.isFinite = true) :
    x * y = y * x := by
  rw [mul_of_isFinite hx hy, mul_of_isFinite hy hx, Nat.mul_comm]
  exact congrArg (ofRatio · _ _) (Bool.xor_comm x.negative y.negative)

theorem neg_mul_of_isFinite (hx : x.isFinite = true) (hy : y.isFinite = true) :
    -x * y = -(x * y) := by
  have hsign : ((!x.negative) != y.negative) = (!(x.negative != y.negative)) := by
    cases x.negative <;> cases y.negative <;> rfl
  rw [mul_of_isFinite (x := -x) hx hy, mul_of_isFinite hx hy]
  exact congrArg (ofRatio · _ _) hsign

end Exact

section Zeros

theorem isFinite_of_isZero (h : x.isZero = true) : x.isFinite = true := by
  rw [isFinite_iff, beq_iff_eq.1 h]
  decide

theorem eq_zero (h : x.isZero = true) : x = zero x.negative := by
  obtain ⟨negative, magnitude, hlt⟩ := x
  obtain rfl : magnitude = 0 := beq_iff_eq.1 h
  rfl

theorem isZero_ofRatio {negative : Bool} {den : Nat} (hden : 0 < den) :
    (ofRatio negative 0 den).isZero = true :=
  beq_iff_eq.2 (Nat.le_zero.1 (nearestMagnitude_le hden (Nat.zero_le _)))

theorem isZero_mul_left (hx : x.isZero = true) (hy : y.isFinite = true) :
    (x * y).isZero = true := by
  rw [mul_of_isFinite (isFinite_of_isZero hx) hy, beq_iff_eq.1 hx]
  rw [magnitudeUnits_eq_zero_iff.2 rfl, Nat.zero_mul]
  exact isZero_ofRatio oneUnits_pos

theorem isZero_or_isNaN_mul_left (h : x.isZero = true) :
    (x * y).isZero = true ∨ (x * y).isNaN = true := by
  by_cases hy : y.isFinite = true
  · exact .inl (isZero_mul_left h hy)
  · refine .inr ?_
    change (passNaN x y _).isNaN = true
    rw [passNaN, isNaN_eq_false (isFinite_of_isZero h), if_neg Bool.false_ne_true]
    by_cases hnan : y.isNaN = true
    · rwa [if_pos hnan]
    · have hinfinite : y.isInfinite = true := by
        by_contra hnot
        exact hy (isFinite_of_not hnan hnot)
      rw [if_neg hnan, if_pos (by rw [hinfinite, Bool.or_true]), if_pos (by rw [h, Bool.true_or])]
      decide

theorem isZero_div (hx : x.isZero = true) (hy : ¬ y.isZero = true) (hnan : ¬ y.isNaN = true) :
    (x / y).isZero = true := by
  have hfinite := isFinite_of_isZero hx
  change (passNaN x y _).isZero = true
  rw [passNaN, if_neg fun h => not_isFinite_of_isNaN h hfinite, if_neg hnan,
    if_neg fun h => not_isFinite_of_isInfinite h hfinite]
  split_ifs with hinfinite
  · rfl
  · have hpos := magnitudeUnits_pos hy
    rw [beq_iff_eq.1 hx, magnitudeUnits_eq_zero_iff.2 rfl, Nat.zero_mul]
    exact isZero_ofRatio hpos

theorem isZero_add (hx : x.isZero = true) (hy : y.isZero = true) : (x + y).isZero = true := by
  have h := units_add (isFinite_of_isZero hx) (isFinite_of_isZero hy) (isFinite_of_isZero hx)
    (by rw [units_eq_zero_iff.2 hy, Int.add_zero])
  rw [← units_eq_zero_iff, h.1, units_eq_zero_iff.2 hx]

/-- Numbers with the same exact value have no difference. -/
theorem isZero_sub (hx : x.isFinite = true) (hy : y.isFinite = true) (h : x.units = y.units) :
    (x - y).isZero = true := by
  rw [sub_of_isFinite hx hy, h, Int.sub_self]
  rfl

theorem isFinite_sub_zero (hx : x.isFinite = true) (hy : y.isZero = true) :
    (x - y).isFinite = true := by
  rw [sub_of_isFinite hx (isFinite_of_isZero hy), units_eq_zero_iff.2 hy, Int.sub_zero]
  by_cases hzero : x.isZero = true
  · rw [units_eq_zero_iff.2 hzero]
    rfl
  · rwa [ofUnits_units hx hzero]

end Zeros

section Counts

theorem log2_le {n k : Nat} (hn : n ≠ 0) (h : n ≤ 2 ^ k) : n.log2 ≤ k :=
  Nat.le_of_lt_succ ((Nat.log2_lt hn).2 (h.trans_lt (Nat.pow_lt_pow_succ (by decide))))

theorem le_log2_magnitudeUnits {binade magnitude : Nat}
    (h : (binade + 1) * binadeSize ≤ magnitude) :
    52 + binade ≤ (magnitudeUnits magnitude).log2 := by
  have hmono := magnitudeUnits_strictMono.monotone h
  rw [magnitudeUnits_succ] at hmono
  exact (Nat.le_log2 ((Nat.two_pow_pos _).trans_le hmono).ne').2 hmono

/-- Whole numbers of steps that are powers of two are the exact values of numbers. -/
theorem exists_magnitudeUnits {n : Nat} (hn : n < 2 ^ 53) (shift : Nat) (hshift : shift ≤ 2045) :
    ∃ magnitude, magnitude < infiniteMagnitude ∧ magnitudeUnits magnitude = n * 2 ^ shift := by
  have hsize : binadeSize = 2 ^ 52 := rfl
  have hinfinite : infiniteMagnitude = 2047 * 2 ^ 52 := rfl
  rcases Nat.lt_or_ge (n * 2 ^ shift) (2 ^ 52) with hlow | hlow
  · exact ⟨n * 2 ^ shift, by omega, magnitudeUnits_of_lt hlow⟩
  · have hne : n ≠ 0 := by
      rintro rfl
      rw [Nat.zero_mul] at hlow
      exact absurd hlow (by decide)
    have hlog := (Nat.log2_lt hne).2 hn
    have htotal := log2_mul_pow hne shift
    have hbits : 52 ≤ n.log2 + shift := by
      rw [← htotal]
      exact (Nat.le_log2 (by omega)).2 hlow
    -- the significand has all its bits once the number is shifted by `52 - n.log2`
    obtain ⟨binade, hbinade⟩ := Nat.exists_eq_add_of_le hbits
    have hunits : n * 2 ^ shift = n * 2 ^ (52 - n.log2) * 2 ^ binade := by
      rw [Nat.mul_assoc, ← Nat.pow_add]
      congr 2
      omega
    have hsignificand := (Nat.log2_eq_iff (n := n * 2 ^ (52 - n.log2)) (k := 52)
      (Nat.mul_pos (Nat.pos_of_ne_zero hne) (Nat.two_pow_pos _)).ne').1
      (by rw [log2_mul_pow hne]; omega)
    refine ⟨binade * binadeSize + n * 2 ^ (52 - n.log2), ?_, ?_⟩
    · rw [hsize]
      omega
    · rw [hunits]
      exact magnitudeUnits_binade hsignificand.1 hsignificand.2

theorem le_magnitudeUnits (magnitude : Nat) : magnitude ≤ magnitudeUnits magnitude := by
  rcases Nat.lt_or_ge magnitude binadeSize with hlow | hlow
  · exact (magnitudeUnits_of_lt hlow).ge
  · obtain ⟨binade, beyond, -, heq, hunits⟩ := exists_binade hlow
    have hpow : binade + 1 ≤ 2 ^ binade := Nat.lt_two_pow_self
    calc magnitude = binade * binadeSize + (binadeSize + beyond) := heq
      _ ≤ binade * (binadeSize + beyond) + (binadeSize + beyond) :=
        Nat.add_le_add_right (Nat.mul_le_mul_left _ (Nat.le_add_right _ _)) _
      _ = (binadeSize + beyond) * (binade + 1) := by ring
      _ ≤ (binadeSize + beyond) * 2 ^ binade := Nat.mul_le_mul_left _ hpow
      _ = magnitudeUnits magnitude := hunits.symm

theorem oneUnits_eq : oneUnits = 2 ^ 1074 := by
  unfold oneUnits
  generalize 1074 = shift
  exact Nat.one_shiftLeft shift

theorem two_pow_mul_oneUnits (k : Nat) : 2 ^ k * oneUnits = 2 ^ (k + 1074) := by
  unfold oneUnits
  generalize 1074 = shift
  rw [Nat.one_shiftLeft, Nat.pow_add]

variable {n : Nat}

theorem isFinite_natCast (h : n < 2 ^ 53) : (n : Number).isFinite = true := by
  obtain ⟨magnitude, hfinite, hunits⟩ := exists_magnitudeUnits h 1074 (by decide)
  have hnearest : nearestMagnitude (n * oneUnits) 1 = magnitude := by
    rw [oneUnits_eq, ← hunits, nearestMagnitude_units hfinite]
  exact isFinite_iff.2 (hnearest.trans_lt hfinite)

/-- A number that counts is exact. -/
theorem magnitudeUnits_natCast (h : n < 2 ^ 53) :
    magnitudeUnits (n : Number).magnitude = n * oneUnits := by
  obtain ⟨magnitude, hfinite, hunits⟩ := exists_magnitudeUnits h 1074 (by decide)
  have hnearest : nearestMagnitude (n * oneUnits) 1 = magnitude := by
    rw [oneUnits_eq, ← hunits, nearestMagnitude_units hfinite]
  rw [oneUnits_eq, ← hunits, ← hnearest]
  rfl

theorem units_natCast (h : n < 2 ^ 53) : (n : Number).units = (n * oneUnits : Nat) := by
  rw [← magnitudeUnits_natCast h]
  rfl

theorem isFinite_one : (1 : Number).isFinite = true := isFinite_natCast (n := 1) (by decide)

theorem isFinite_two : (2 : Number).isFinite = true := isFinite_natCast (n := 2) (by decide)

theorem magnitudeUnits_two : magnitudeUnits (2 : Number).magnitude = 2 * oneUnits :=
  magnitudeUnits_natCast (n := 2) (by decide)

theorem magnitudeUnits_half : 2 * magnitudeUnits (0.5 : Number).magnitude = oneUnits ∧
    (0.5 : Number).isFinite = true := by
  decide +kernel

theorem one_mul_of_isFinite {x : Number} (h : x.isFinite = true) : 1 * x = x := by
  have hone : magnitudeUnits (1 : Number).magnitude = oneUnits :=
    (magnitudeUnits_natCast (n := 1) (by decide)).trans (Nat.one_mul _)
  rw [mul_of_isFinite isFinite_one h, hone, Nat.mul_comm, ofRatio]
  simp only [nearestMagnitude_units_mul h oneUnits_pos,
    show (1 : Number).negative = false from rfl, Bool.false_bne]

/-- A whole number of ones is a number that counts. -/
theorem ofUnits_natCast (n : Nat) : ofUnits ((n * oneUnits : Nat) : Int) false = (n : Number) := by
  rw [ofUnits]
  split_ifs with hzero
  · have hmul : n * oneUnits = 0 := Int.ofNat_eq_zero.1 hzero
    obtain rfl := (Nat.mul_eq_zero.1 hmul).resolve_right oneUnits_pos.ne'
    rfl
  · rw [Int.natAbs_natCast, decide_eq_false (Int.not_lt.2 (Int.natCast_nonneg _))]
    rfl

theorem natCast_sub_one (hpos : 0 < n) (h : n < 2 ^ 53) :
    (n : Number) - 1 = ((n - 1 : Nat) : Number) := by
  have hone : (1 : Number) = ((1 : Nat) : Number) := rfl
  have hcount :
      ((n * oneUnits : Nat) : Int) - (1 * oneUnits : Nat) = ((n - 1) * oneUnits : Nat) := by
    rw [← Int.natCast_sub (Nat.mul_le_mul_right _ hpos), ← Nat.sub_mul]
  rw [hone, sub_of_isFinite (isFinite_natCast h) (isFinite_natCast (by decide)), units_natCast h,
    units_natCast (by decide), hcount]
  exact ofUnits_natCast (n - 1)

end Counts

/-- Positive and not a not-a-number. -/
structure Positive (x : Number) : Prop where
  negative_eq : x.negative = false
  magnitude_pos : 0 < x.magnitude
  magnitude_le : x.magnitude ≤ infiniteMagnitude

namespace Positive

theorem units_pos (h : x.Positive) : 0 < magnitudeUnits x.magnitude :=
  Nat.pos_of_ne_zero fun hzero => h.magnitude_pos.ne' (magnitudeUnits_eq_zero_iff.1 hzero)

theorem not_isZero (h : x.Positive) : ¬ x.isZero = true := fun hzero =>
  h.magnitude_pos.ne' (beq_iff_eq.1 hzero)

theorem not_isNaN (h : x.Positive) : ¬ x.isNaN = true := by
  rw [isNaN, decide_eq_true_eq, Nat.not_lt]
  exact h.magnitude_le

theorem isFinite_or_isInfinite (h : x.Positive) : x.isFinite = true ∨ x.isInfinite = true := by
  by_cases hinfinite : x.isInfinite = true
  · exact .inr hinfinite
  · exact .inl (isFinite_of_not h.not_isNaN hinfinite)

theorem ofRatio {num den : Nat} (hden : 0 < den) (h : den ≤ num) :
    (Number.ofRatio false num den).Positive where
  negative_eq := rfl
  magnitude_pos := le_nearestMagnitude hden (by decide) ((Nat.one_mul den).trans_le h)
  magnitude_le := Nat.min_le_left _ _

theorem infinite : (Number.infinite false).Positive := ⟨rfl, by decide, Nat.le_refl _⟩

theorem natCast {n : Nat} (hpos : 0 < n) : (n : Number).Positive :=
  ofRatio Nat.one_pos (Nat.mul_pos hpos oneUnits_pos)

theorem two : (2 : Number).Positive := natCast (n := 2) Nat.two_pos

/-- Adding a positive number leads at least one magnitude further. -/
theorem add (hx : x.negative = false) (hle : x.magnitude ≤ infiniteMagnitude) (hy : y.Positive)
    {k : Nat} (hk : k ≤ x.magnitude) (hlt : k + 1 < 2 ^ 53) :
    (x + y).negative = false ∧ k + 1 ≤ (x + y).magnitude ∧
      (x + y).magnitude ≤ infiniteMagnitude := by
  change (passNaN x y (sumOf x y)).negative = false ∧ k + 1 ≤ (passNaN x y (sumOf x y)).magnitude ∧
    (passNaN x y (sumOf x y)).magnitude ≤ infiniteMagnitude
  have hinfinite : k + 1 ≤ infiniteMagnitude := hlt.le.trans (by decide)
  rw [passNaN, if_neg (by simpa [isNaN] using hle), if_neg hy.not_isNaN, sumOf]
  split_ifs with hxi hyi hyi
  · simp [hx, hy.negative_eq] at hyi
  · exact ⟨hx, hinfinite.trans (beq_iff_eq.1 hxi).ge, hle⟩
  · exact ⟨hy.negative_eq, hinfinite.trans (beq_iff_eq.1 hyi).ge, hy.magnitude_le⟩
  · have hxk := magnitudeUnits_strictMono.monotone hk
    have hy1 := hy.units_pos
    rw [magnitudeUnits_small (by omega)] at hxk
    have hsum : x.units + y.units =
        (magnitudeUnits x.magnitude + magnitudeUnits y.magnitude : Nat) := by
      simp [units, hx, hy.negative_eq]
    rw [hsum, ofUnits, if_neg (by omega), Int.natAbs_natCast, decide_eq_false (by omega)]
    refine ⟨rfl, ?_, Nat.min_le_left _ _⟩
    refine le_nearestMagnitude Nat.one_pos hinfinite ?_
    rw [magnitudeUnits_small hlt]
    omega

/-- The product of two positive numbers is one, if it does not fall below the smallest number. -/
theorem mul (hx : x.Positive) (hy : y.Positive)
    (h : oneUnits ≤ magnitudeUnits x.magnitude * magnitudeUnits y.magnitude) :
    (x * y).Positive := by
  change (passNaN x y _).Positive
  rw [passNaN, if_neg hx.not_isNaN, if_neg hy.not_isNaN, hx.negative_eq, hy.negative_eq]
  split_ifs with hinfinite hzero
  · rw [Bool.or_eq_true] at hzero
    exact absurd hzero (not_or.2 ⟨hx.not_isZero, hy.not_isZero⟩)
  · exact infinite
  · exact ofRatio oneUnits_pos h

/-- A square is positive unless it is zero or not a number. -/
theorem mul_self (hfinite : x.isFinite = true) (h : ¬ (x * x).isZero = true) :
    (x * x).Positive := by
  rw [mul_of_isFinite hfinite hfinite, bne_self_eq_false] at h ⊢
  exact ⟨rfl, Nat.pos_of_ne_zero fun hzero => h (beq_iff_eq.2 hzero), Nat.min_le_left _ _⟩

section Division

variable {n : Nat} (hx : x.Positive) (hpos : 0 < n) (hn : n < 2 ^ 53)

include hx hpos hn

theorem div_natCast_of_isFinite (hfinite : x.isFinite = true) : x / (n : Number) =
    Number.ofRatio false (magnitudeUnits x.magnitude * oneUnits) (n * oneUnits) := by
  have hcount := natCast hpos
  rw [div_of_isFinite hfinite (isFinite_natCast hn) hcount.not_isZero, hx.negative_eq,
    hcount.negative_eq, magnitudeUnits_natCast hn, bne_self_eq_false]

theorem div_natCast (h : n ≤ magnitudeUnits x.magnitude) : (x / (n : Number)).Positive := by
  rcases hx.isFinite_or_isInfinite with hfinite | hinfinite
  · rw [hx.div_natCast_of_isFinite hpos hn hfinite]
    exact ofRatio (Nat.mul_pos hpos oneUnits_pos) (Nat.mul_le_mul_right _ h)
  · have hcount := natCast hpos
    have hnot : ¬ (n : Number).isInfinite = true := fun h =>
      not_isFinite_of_isInfinite h (isFinite_natCast hn)
    change (passNaN x n _).Positive
    rw [passNaN, if_neg hx.not_isNaN, if_neg hcount.not_isNaN, if_pos hinfinite, if_neg hnot,
      hx.negative_eq, hcount.negative_eq]
    exact infinite

theorem div_natCast_le (hfinite : x.isFinite = true) :
    (x / (n : Number)).magnitude ≤ x.magnitude := by
  rw [hx.div_natCast_of_isFinite hpos hn hfinite]
  refine nearestMagnitude_le (Nat.mul_pos hpos oneUnits_pos) ?_
  rw [Nat.mul_left_comm]
  exact Nat.le_mul_of_pos_left _ hpos

end Division

/-- Two divided by a count is neither very small nor very large. -/
theorem two_div_natCast {n : Nat} (hpos : 0 < n) (hn : n < 2 ^ 53) :
    (2 / (n : Number)).Positive ∧ (2 / (n : Number)).isFinite = true ∧
      52 + 970 ≤ (magnitudeUnits (2 / (n : Number)).magnitude).log2 ∧
      (magnitudeUnits (2 / (n : Number)).magnitude).log2 ≤ 1 + 1074 := by
  have hunits : magnitudeUnits (2 : Number).magnitude = 2 ^ (1 + 1074) :=
    magnitudeUnits_two.trans (two_pow_mul_oneUnits 1)
  have hle := two.div_natCast_le hpos hn isFinite_two
  have hlt := hle.trans_lt (isFinite_iff.1 isFinite_two)
  have hbound {k l : Nat} (h : k + 53 ≤ l) : 2 ^ k * n ≤ 2 ^ l := by
    refine (Nat.mul_le_mul_left _ hn.le).trans ?_
    rw [← Nat.pow_add]
    exact Nat.pow_le_pow_right Nat.two_pos h
  have hlow : (970 + 1) * binadeSize ≤ (2 / (n : Number)).magnitude := by
    rw [two.div_natCast_of_isFinite hpos hn isFinite_two]
    refine le_nearestMagnitude (Nat.mul_pos hpos oneUnits_pos) (by decide) ?_
    rw [magnitudeUnits_succ, hunits, ← Nat.mul_assoc]
    exact Nat.mul_le_mul_right _ (hbound (by decide))
  have hpositive : (2 / (n : Number)).Positive := by
    refine two.div_natCast hpos hn ?_
    rw [hunits, ← Nat.one_mul n]
    exact hbound (k := 0) (by decide)
  refine ⟨hpositive, isFinite_iff.2 hlt, ?_, ?_⟩
  · exact le_log2_magnitudeUnits hlow
  · have hmono := magnitudeUnits_strictMono.monotone hle
    rw [hunits] at hmono
    exact log2_le hpositive.units_pos.ne' hmono

end Positive

end Number

end EstimateSheet
