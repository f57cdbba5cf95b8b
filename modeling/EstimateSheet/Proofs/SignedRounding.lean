import EstimateSheet.Proofs.Extrema

/-!
# Rounding keeps the order

Counted in the smallest positive number, the exact values of numbers are in the order of their
places (`units_le_units_iff`). A signed ratio is rounded by its magnitude, so rounding does not pass
a number from below or from above (`place_le_place_ofRatio`, `place_ofRatio_le_place`), and of two
values the larger one is not rounded to less (`nearestMagnitude_mono`, `place_ofUnits_mono`). What
is the value of a number is kept (`units_ofUnits`). Among these values are all multiples of a power
of two that are less than `2 ^ 53` times as large (`exists_units`), and a large number is such a
multiple (`two_pow_dvd_magnitudeUnits`).
-/

namespace EstimateSheet

namespace Number

variable {x y z : Number}

/-- The exact values are in the order of the places. -/
theorem units_lt_units_iff : x.units < y.units ↔ x.place < y.place := by
  have hlt := magnitudeUnits_strictMono.lt_iff_lt (a := x.magnitude) (b := y.magnitude)
  have hgt := magnitudeUnits_strictMono.lt_iff_lt (a := y.magnitude) (b := x.magnitude)
  have hx := @magnitudeUnits_eq_zero_iff x.magnitude
  have hy := @magnitudeUnits_eq_zero_iff y.magnitude
  unfold units place
  split_ifs <;> omega

theorem units_le_units_iff : x.units ≤ y.units ↔ x.place ≤ y.place := by
  rw [← Int.not_lt, units_lt_units_iff, Int.not_lt]

theorem le_iff_units_le (hx : x.isFinite = true) (hy : y.isFinite = true) :
    x.le y = true ↔ x.units ≤ y.units := by
  rw [le_iff, units_le_units_iff]
  exact ⟨fun h => h.2.2, fun h => ⟨isNaN_eq_false hx, isNaN_eq_false hy, h⟩⟩

theorem lt_iff_units_lt (hx : x.isFinite = true) (hy : y.isFinite = true) :
    x.lt y = true ↔ x.units < y.units := by
  rw [lt_iff, units_lt_units_iff]
  exact ⟨fun h => h.2.2, fun h => ⟨isNaN_eq_false hx, isNaN_eq_false hy, h⟩⟩

/-- What is between two finite numbers is finite. -/
theorem isFinite_of_place (hx : x.isFinite = true) (hz : z.isFinite = true)
    (hxy : x.place ≤ y.place) (hyz : y.place ≤ z.place) : y.isFinite = true := by
  rw [isFinite_iff] at hx hz ⊢
  unfold place at hxy hyz
  split_ifs at hxy hyz <;> omega

/-- A count with a sign. -/
def signed (negative : Bool) (n : Nat) : Int := if negative then -(n : Int) else n

theorem units_eq_signed (x : Number) : x.units = signed x.negative (magnitudeUnits x.magnitude) :=
  rfl

theorem signed_not (negative : Bool) (n : Nat) : signed (!negative) n = -signed negative n := by
  cases negative
  · rfl
  · exact (Int.neg_neg _).symm

theorem signed_mul (negative : Bool) (m n : Nat) :
    signed negative (m * n) = signed negative m * n := by
  cases negative
  · exact Int.natCast_mul m n
  · change -((m * n : Nat) : Int) = -(m : Int) * n
    rw [Int.natCast_mul, Int.neg_mul]

theorem signed_natAbs (count : Int) : signed (decide (count < 0)) count.natAbs = count := by
  unfold signed
  split_ifs with h
  · have h := of_decide_eq_true h
    omega
  · have h := of_decide_eq_false (Bool.eq_false_iff.2 h)
    omega

section Ratios

variable {negative : Bool} {num num' den : Nat}

/-- What is at least a number is rounded to no less, whatever the signs are. -/
theorem place_le_place_ofRatio (hden : 0 < den) (hx : x.magnitude ≤ infiniteMagnitude)
    (h : x.units * den ≤ signed negative num) : x.place ≤ (ofRatio negative num den).place := by
  unfold units signed at h
  unfold place ofRatio
  dsimp only
  cases hsign : x.negative <;> cases negative <;>
    simp only [hsign, Bool.false_eq_true, if_false, if_true] at h ⊢
  · have hle := le_nearestMagnitude hden hx (by exact_mod_cast h)
    omega
  · have hmul : magnitudeUnits x.magnitude * den = 0 ∧ num = 0 := by
      rw [← Int.natCast_mul] at h
      omega
    have hzero := (Nat.mul_eq_zero.1 hmul.1).resolve_right hden.ne'
    have hnearest : nearestMagnitude num den ≤ 0 := nearestMagnitude_le hden (by omega)
    rw [magnitudeUnits_eq_zero_iff.1 hzero]
    omega
  · omega
  · have hle : nearestMagnitude num den ≤ x.magnitude := nearestMagnitude_le hden (by
      rw [Int.neg_mul] at h
      exact_mod_cast Int.neg_le_neg_iff.1 h)
    omega

/-- What is at most a number is rounded to no more. -/
theorem place_ofRatio_le_place (hden : 0 < den) (hx : x.magnitude ≤ infiniteMagnitude)
    (h : signed negative num ≤ x.units * den) : (ofRatio negative num den).place ≤ x.place := by
  have hneg : (-x).place ≤ (ofRatio (!negative) num den).place := by
    refine place_le_place_ofRatio hden hx ?_
    rw [units_neg, signed_not, Int.neg_mul]
    exact Int.neg_le_neg h
  have hratio : (ofRatio (!negative) num den).place = -(ofRatio negative num den).place :=
    place_neg (ofRatio negative num den)
  rw [place_neg, hratio] at hneg
  exact Int.neg_le_neg_iff.1 hneg

/-- Of two ratios the larger one is not rounded to less. -/
theorem nearestMagnitude_mono (hden : 0 < den) (h : num ≤ num') :
    nearestMagnitude num den ≤ nearestMagnitude num' den := by
  obtain ⟨below, hle, -, hcases⟩ := nearestMagnitude_cases hden num
  obtain ⟨below', -, hlt', hcases'⟩ := nearestMagnitude_cases hden num'
  have hbelow : below < below' + 1 := magnitudeUnits_strictMono.lt_iff_lt.1
    (Nat.lt_of_mul_lt_mul_right (hle.trans_lt (h.trans_lt hlt')))
  rcases Nat.eq_or_lt_of_le h with rfl | hlt
  · exact Nat.le_refl _
  rcases Nat.eq_or_lt_of_le (Nat.le_of_lt_succ hbelow) with rfl | hnext
  · -- between the same neighbours, only the larger ratio can be nearer to the upper one
    rcases hcases with ⟨heq, -⟩ | ⟨heq, hup⟩ <;> rcases hcases' with ⟨heq', hdown⟩ | ⟨heq', -⟩ <;>
      omega
  · rcases hcases with ⟨heq, -⟩ | ⟨heq, -⟩ <;> rcases hcases' with ⟨heq', -⟩ | ⟨heq', -⟩ <;> omega

end Ratios

section Counts

variable {count count' : Int} {negative negative' : Bool}

theorem magnitude_ofUnits (count : Int) (negative : Bool) :
    (ofUnits count negative).magnitude = nearestMagnitude count.natAbs 1 := by
  unfold ofUnits
  split_ifs with hzero
  · subst hzero
    rfl
  · rfl

theorem negative_ofUnits (hpos : 0 < count) : (ofUnits count negative).negative = false := by
  rw [ofUnits, if_neg hpos.ne', ofRatio]
  exact decide_eq_false (Int.not_lt.2 hpos.le)

theorem place_ofUnits (count : Int) (negative : Bool) : (ofUnits count negative).place =
    signed (decide (count < 0)) (nearestMagnitude count.natAbs 1) := by
  unfold ofUnits
  split_ifs with hzero
  · subst hzero
    cases negative <;> rfl
  · rfl

theorem place_ofUnits_mono (h : count ≤ count') :
    (ofUnits count negative).place ≤ (ofUnits count' negative').place := by
  rw [place_ofUnits, place_ofUnits]
  unfold signed
  by_cases hcount : count < 0 <;> by_cases hcount' : count' < 0 <;>
    simp only [hcount, hcount', decide_true, decide_false, Bool.false_eq_true, if_true, if_false]
  · have habs : count'.natAbs ≤ count.natAbs := by omega
    have hmono := nearestMagnitude_mono Nat.one_pos habs
    omega
  · omega
  · omega
  · have habs : count.natAbs ≤ count'.natAbs := by omega
    have hmono := nearestMagnitude_mono Nat.one_pos habs
    omega

/-- A value that is that of a number is not rounded. -/
theorem units_ofUnits (hz : z.isFinite = true) (negative : Bool) :
    (ofUnits z.units negative).units = z.units ∧ (ofUnits z.units negative).isFinite = true := by
  by_cases hzero : z.isZero = true
  · rw [units_eq_zero_iff.2 hzero]
    exact ⟨units_eq_zero_iff.2 rfl, rfl⟩
  · rw [ofUnits_units hz hzero]
    exact ⟨rfl, hz⟩

theorem place_ofUnits_units (hz : z.isFinite = true) (negative : Bool) :
    (ofUnits z.units negative).place = z.place := by
  have hunits := (units_ofUnits hz negative).1
  exact Int.le_antisymm (units_le_units_iff.1 hunits.le) (units_le_units_iff.1 hunits.ge)

theorem place_le_place_ofUnits (hx : x.isFinite = true) (h : x.units ≤ count) :
    x.place ≤ (ofUnits count negative).place := by
  rw [← place_ofUnits_units hx negative]
  exact place_ofUnits_mono h

theorem place_ofUnits_le_place (hx : x.isFinite = true) (h : count ≤ x.units) :
    (ofUnits count negative).place ≤ x.place := by
  rw [← place_ofUnits_units hx negative]
  exact place_ofUnits_mono h

/-- Few steps that are powers of two, upwards or downwards, are the exact value of a number. -/
theorem exists_units {n : Nat} (hn : n < 2 ^ 53) (shift : Nat) (hshift : shift ≤ 2045)
    (negative : Bool) :
    ∃ z : Number, z.isFinite = true ∧ z.units = signed negative (n * 2 ^ shift) := by
  obtain ⟨magnitude, hfinite, hunits⟩ := exists_magnitudeUnits hn shift hshift
  refine ⟨⟨negative, magnitude, hfinite.trans (by decide)⟩, isFinite_iff.2 hfinite, ?_⟩
  rw [units_eq_signed, hunits]

theorem exists_units_of_dvd {shift : Nat} (hshift : shift ≤ 2045)
    (hdvd : (2 ^ shift : Nat) ∣ count.natAbs) (hlt : count.natAbs < 2 ^ (53 + shift)) :
    ∃ z : Number, z.isFinite = true ∧ z.units = count := by
  obtain ⟨n, hn⟩ := hdvd
  rw [hn, Nat.pow_add, Nat.mul_comm] at hlt
  obtain ⟨z, hz, hunits⟩ :=
    exists_units (Nat.lt_of_mul_lt_mul_right hlt) shift hshift (decide (count < 0))
  refine ⟨z, hz, ?_⟩
  rw [hunits, Nat.mul_comm, ← hn, signed_natAbs]

end Counts

/-- Large numbers are multiples of large powers of two. -/
theorem two_pow_dvd_magnitudeUnits {magnitude shift : Nat}
    (h : 2 ^ (52 + shift) ≤ magnitudeUnits magnitude) : 2 ^ shift ∣ magnitudeUnits magnitude := by
  rw [magnitudeUnits_eq_significand] at h ⊢
  generalize magnitude / binadeSize - 1 = binade at h ⊢
  have hlt : 2 ^ (52 + shift) < 2 ^ (53 + binade) := by
    refine h.trans_lt ?_
    rw [Nat.pow_add 2 53]
    exact Nat.mul_lt_mul_of_pos_right significand_lt (Nat.two_pow_pos binade)
  have hshift := (Nat.pow_lt_pow_iff_right (by decide)).1 hlt
  exact Dvd.dvd.mul_left (Nat.pow_dvd_pow 2 (by omega)) _

end Number

end EstimateSheet
