import EstimateSheet.Proofs.EvalErrors
import EstimateSheet.Proofs.Quantiles

/-!
# Where percentiles stand

The position of a percentile is a rounded quotient times the last position, rounded again. Rounding
does not pass a number, and one and the last position are numbers, so the position is never beyond
the last one (`Statistics.within_percentilePosition`). Rounded down and rounded up it gives two
positions at which there are numbers and which are at most one apart. Where it is whole they are the
same, and the percentile is the number there (`Statistics.PercentileRead`).
-/

namespace EstimateSheet

namespace Number

variable {x : Number}

section Integral

theorem toNat_of_isZero (h : x.isZero = true) : x.toNat = 0 := by
  rw [eq_zero h]
  cases x.negative
  · rfl
  · rfl

theorem toNat_of_isNaN (h : x.isNaN = true) : x.toNat = 0 := by
  simp [toNat, h]

theorem isZero_floor (h : x.isZero = true) : x.floor.isZero = true := by
  rw [floor, if_pos (isFinite_of_isZero h), units_eq_zero_iff.2 h, Int.zero_ediv, Int.zero_mul]
  rfl

theorem isZero_ceil (h : x.isZero = true) : x.ceil.isZero = true := isZero_floor (x := -x) h

theorem neg_neg (x : Number) : - -x = x := by
  obtain ⟨negative, magnitude, hlt⟩ := x
  change (⟨!!negative, magnitude, hlt⟩ : Number) = _
  rw [Bool.not_not]

theorem ofUnits_neg (count : Int) (negative : Bool) :
    ofUnits (-count) (!negative) = -ofUnits count negative := by
  unfold ofUnits
  by_cases hzero : count = 0
  · rw [if_pos hzero, if_pos (by omega)]
    rfl
  · have hsign : decide (-count < 0) = !decide (count < 0) := by
      rw [← decide_not, decide_eq_decide]
      omega
    rw [if_neg hzero, if_neg (by omega), Int.natAbs_neg, hsign]
    rfl

theorem toNat_floor_of_isZero_or_isNaN (h : x.isZero = true ∨ x.isNaN = true) :
    x.floor.toNat = 0 ∧ x.ceil.toNat = 0 := by
  rcases h with hzero | hnan
  · exact ⟨toNat_of_isZero (isZero_floor hzero), toNat_of_isZero (isZero_ceil hzero)⟩
  · have hfinite : ¬ x.isFinite = true := not_isFinite_of_isNaN hnan
    have hneg : ¬ (-x).isFinite = true := hfinite
    rw [ceil, floor, if_neg hfinite, floor, if_neg hneg, neg_neg]
    exact ⟨toNat_of_isNaN hnan, toNat_of_isNaN hnan⟩

/-- A number that is not negative, rounded up. -/
theorem ceil_eq_natCast (hfinite : x.isFinite = true) (hx : x.negative = false) {n : Nat}
    (hlow : magnitudeUnits x.magnitude ≤ n * oneUnits)
    (hhigh : n * oneUnits < magnitudeUnits x.magnitude + oneUnits) : x.ceil = (n : Number) := by
  have hunits : (-x).units = -(magnitudeUnits x.magnitude : Int) := by
    rw [units_neg, units_eq_magnitudeUnits hx]
  have hquotient : (-x).units / oneUnits = -(n : Int) := by
    rw [hunits]
    refine ((Int.ediv_emod_unique (r := n * oneUnits - magnitudeUnits x.magnitude)
      (Int.natCast_pos.2 oneUnits_pos)).2 ⟨?_, ?_, ?_⟩).1
    · ring
    · exact Int.sub_nonneg_of_le (by exact_mod_cast hlow)
    · exact Int.sub_left_lt_of_lt_add (by exact_mod_cast hhigh)
  have hfloor : (-x).floor = -(n : Number) := by
    have hsign : (-x).negative = !false := congrArg not hx
    have hneg : (-x).isFinite = true := hfinite
    rw [floor, if_pos hneg, hquotient, hsign, Int.neg_mul, ← Int.natCast_mul, ofUnits_neg,
      ofUnits_natCast]
  rw [ceil, hfloor, neg_neg]

end Integral

/-- A position, whole or not, from zero up to `last`. -/
structure Within (x : Number) (last : Nat) : Prop where
  isFinite : x.isFinite = true
  sign : x.negative = false ∨ x.isZero = true
  units_le : magnitudeUnits x.magnitude ≤ last * oneUnits

namespace Within

variable {last : Nat}

theorem toNat_floor (h : x.Within last) (hlast : last < 2 ^ 53) :
    x.floor.toNat = magnitudeUnits x.magnitude / oneUnits := by
  rcases h.sign with hx | hzero
  · refine Number.toNat_floor h.isFinite hx (lt_of_le_of_lt ?_ hlast)
    exact Nat.div_le_of_le_mul (by rw [Nat.mul_comm]; exact h.units_le)
  · rw [toNat_of_isZero (isZero_floor hzero), beq_iff_eq.1 hzero, magnitudeUnits_eq_zero_iff.2 rfl,
      Nat.zero_div]

theorem toNat_ceil (h : x.Within last) (hlast : last < 2 ^ 53) {n : Nat}
    (hlow : magnitudeUnits x.magnitude ≤ n * oneUnits)
    (hhigh : n * oneUnits < magnitudeUnits x.magnitude + oneUnits) : x.ceil.toNat = n := by
  have hn : n ≤ last := by
    refine Nat.le_of_lt_succ (Nat.lt_of_mul_lt_mul_right (a := oneUnits) ?_)
    rw [Nat.succ_mul]
    exact hhigh.trans_le (Nat.add_le_add_right h.units_le _)
  rcases h.sign with hx | hzero
  · rw [ceil_eq_natCast h.isFinite hx hlow hhigh, toNat_natCast (by omega)]
  · rw [toNat_of_isZero (isZero_ceil hzero)]
    rw [beq_iff_eq.1 hzero, magnitudeUnits_eq_zero_iff.2 rfl, Nat.zero_add] at hhigh
    have hlt : n < 1 := Nat.lt_of_mul_lt_mul_right (hhigh.trans_eq (Nat.one_mul _).symm)
    omega

/-- Rounded down and rounded up, a whole position is itself. -/
theorem toNat_of_units (h : x.Within last) (hlast : last < 2 ^ 53) {n : Nat}
    (hn : magnitudeUnits x.magnitude = n * oneUnits) : x.floor.toNat = n ∧ x.ceil.toNat = n := by
  refine ⟨?_, h.toNat_ceil hlast hn.le ?_⟩
  · rw [h.toNat_floor hlast, hn, Nat.mul_div_cancel n oneUnits_pos]
  · rw [hn]
    exact Nat.lt_add_of_pos_right oneUnits_pos

/-- Rounded down and rounded up, a position is at most one apart and not beyond the last one. -/
theorem toNat_cases (h : x.Within last) (hlast : last < 2 ^ 53) :
    x.floor.toNat ≤ last ∧ (x.ceil.toNat = x.floor.toNat ∨
      x.ceil.toNat = x.floor.toNat + 1 ∧ x.floor.toNat + 1 ≤ last) := by
  have hsplit := Nat.div_add_mod' (magnitudeUnits x.magnitude) oneUnits
  have hrest := Nat.mod_lt (magnitudeUnits x.magnitude) oneUnits_pos
  have hfloor := h.toNat_floor hlast
  generalize magnitudeUnits x.magnitude / oneUnits = n at hsplit hfloor
  have hle : n ≤ last := by
    refine Nat.le_of_mul_le_mul_right ?_ oneUnits_pos
    exact (Nat.le_add_right _ _).trans (hsplit.le.trans h.units_le)
  refine ⟨hfloor ▸ hle, ?_⟩
  rw [hfloor]
  rcases Nat.eq_zero_or_pos (magnitudeUnits x.magnitude % oneUnits) with hzero | hpos
  · exact .inl (h.toNat_of_units hlast (by omega)).2
  · refine .inr ⟨h.toNat_ceil hlast ?_ ?_, ?_⟩
    · rw [Nat.succ_mul]
      omega
    · rw [Nat.succ_mul]
      omega
    · refine Nat.lt_of_mul_lt_mul_right (a := oneUnits) (lt_of_lt_of_le ?_ h.units_le)
      omega

end Within

/-- A count is a whole position. -/
theorem toNat_floor_natCast {k : Nat} (hk : k < 2 ^ 53) :
    (k : Number).floor.toNat = k ∧ (k : Number).ceil.toNat = k := by
  have hunits := magnitudeUnits_natCast hk
  have hwithin : (k : Number).Within k := ⟨isFinite_natCast hk, .inl rfl, hunits.le⟩
  exact hwithin.toNat_of_units hk hunits

end Number

open Number

namespace Statistics

variable {p : Number} {last : Nat}

/-- A percentage is finite, and zero if its sign is negative. -/
theorem isFinite_of_between (hp : between 0 100 p = true) :
    p.isFinite = true ∧ (p.negative = false ∨ p.isZero = true) ∧
      magnitudeUnits p.magnitude ≤ 100 * oneUnits := by
  have hzero : (0 : Number).place = 0 := rfl
  have hhundred : (100 : Number).place = (100 : Number).magnitude := rfl
  have hunits := magnitudeUnits_natCast (n := 100) (by decide)
  simp only [between, le, Bool.and_eq_true, decide_eq_true_eq, hzero, hhundred] at hp
  obtain ⟨⟨-, hlow⟩, -, hhigh⟩ := hp
  have hle : p.magnitude ≤ (100 : Number).magnitude := by
    unfold place at hlow hhigh
    split_ifs at hlow hhigh <;> omega
  refine ⟨isFinite_of_magnitude_le hle (isFinite_natCast (n := 100) (by decide)), ?_, ?_⟩
  · unfold place at hlow
    by_cases hsign : p.negative = true
    · rw [if_pos hsign] at hlow
      exact .inr (beq_iff_eq.2 (by omega))
    · exact .inl (by simpa using hsign)
  · rw [← hunits]
    exact magnitudeUnits_strictMono.monotone hle

theorem not_between_iff : ¬ between 0 100 p = true ↔
    p.isNaN = true ∨ p.lt 0 = true ∨ Number.lt 100 p = true := by
  have hzero : (0 : Number).isNaN = false := isNaN_eq_false (isFinite_natCast (n := 0) (by decide))
  have hhundred : (100 : Number).isNaN = false :=
    isNaN_eq_false (isFinite_natCast (n := 100) (by decide))
  simp only [between, le, lt, hzero, hhundred]
  cases p.isNaN
  · simp
    omega
  · simp

/-- Neither the quotient nor the product is rounded beyond a number. -/
theorem within_percentilePosition (hp : between 0 100 p = true) {count : Nat}
    (hcount : count - 1 < 2 ^ 53) : (percentilePosition count p).Within (count - 1) := by
  obtain ⟨hfinite, hsign, hle⟩ := isFinite_of_between hp
  unfold percentilePosition
  generalize count - 1 = last at hcount ⊢
  have hhundred : (100 : Number).Positive := Positive.natCast (n := 100) (by decide)
  have hunits : magnitudeUnits (100 : Number).magnitude = 100 * oneUnits :=
    magnitudeUnits_natCast (n := 100) (by decide)
  have hone := magnitudeUnits_natCast (n := 1) (by decide)
  have hlast := magnitudeUnits_natCast hcount
  have hquotient : p / 100 = ofRatio (p.negative != false)
      (magnitudeUnits p.magnitude * oneUnits) (100 * oneUnits) := by
    rw [← hunits]
    exact div_of_isFinite hfinite (isFinite_natCast (n := 100) (by decide)) hhundred.not_isZero
  have hfraction : (p / 100).magnitude ≤ ((1 : Nat) : Number).magnitude := by
    rw [hquotient]
    refine nearestMagnitude_le (Nat.mul_pos (by decide) oneUnits_pos) ?_
    rw [hone, Nat.one_mul, Nat.mul_comm oneUnits]
    exact Nat.mul_le_mul_right _ hle
  have hfractionfinite := isFinite_of_magnitude_le hfraction (isFinite_natCast (by decide))
  have hproduct := mul_of_isFinite hfractionfinite (isFinite_natCast hcount)
  have hmagnitude : (p / 100 * (last : Number)).magnitude ≤ (last : Number).magnitude := by
    rw [hproduct]
    refine nearestMagnitude_le oneUnits_pos ?_
    have hmono := magnitudeUnits_strictMono.monotone hfraction
    rw [hone, Nat.one_mul] at hmono
    rw [Nat.mul_comm]
    exact Nat.mul_le_mul_left _ hmono
  refine ⟨isFinite_of_magnitude_le hmagnitude (isFinite_natCast hcount), ?_, ?_⟩
  · rcases hsign with hsign | hzero
    · left
      rw [hproduct, hquotient, hsign]
      rfl
    · exact .inr (isZero_mul_left (isZero_div hzero hhundred.not_isZero hhundred.not_isNaN)
        (isFinite_natCast hcount))
  · rw [← hlast]
    exact magnitudeUnits_strictMono.monotone hmagnitude

/-- Where the position is whole, the number at it is read. -/
theorem getElem?_of_position {sorted : List Number} {n : Nat}
    (h : (percentilePosition sorted.length p).floor.toNat = n ∧
      (percentilePosition sorted.length p).ceil.toNat = n) (hn : n < sorted.length) :
    sorted[n]? = some (percentileOfSorted sorted p) := by
  have hne : sorted ≠ [] := List.ne_nil_of_length_pos (by omega)
  have hresult : percentileOfSorted sorted p = _ := if_neg (by rwa [List.isEmpty_iff])
  simp only [h.1, h.2, if_true] at hresult
  rw [hresult]
  exact getElem?_eq_getD hn

/-- A percentile is read off sorted numbers: both positions next to its own are there, what is
between them is interpolated, and at a whole position nothing is. -/
structure PercentileRead (sorted : List Number) (position result : Number) : Prop where
  lower_le : position.floor.toNat ≤ position.ceil.toNat
  upper_le_succ : position.ceil.toNat ≤ position.floor.toNat + 1
  upper_le_last : position.ceil.toNat ≤ sorted.length - 1
  interpolates : ∃ below above, sorted[position.floor.toNat]? = some below ∧
    sorted[position.ceil.toNat]? = some above ∧
    result = if position.floor.toNat = position.ceil.toNat then below
      else below * (1 - (position - (position.floor.toNat : Number))) +
        above * (position - (position.floor.toNat : Number))
  whole : ∀ n : Nat, position.units = (n * oneUnits : Nat) → sorted[n]? = some result

theorem percentileRead {sorted : List Number} (hp : between 0 100 p = true) (hne : sorted ≠ [])
    (hle : sorted.length ≤ 2 ^ 53) :
    PercentileRead sorted (percentilePosition sorted.length p) (percentileOfSorted sorted p) := by
  have hpos : 0 < sorted.length := List.length_pos_iff.2 hne
  have hwithin : (percentilePosition sorted.length p).Within (sorted.length - 1) :=
    within_percentilePosition hp (by omega)
  have hresult : percentileOfSorted sorted p = _ := if_neg (by rwa [List.isEmpty_iff])
  obtain ⟨hlower, hupper⟩ := hwithin.toNat_cases (by omega)
  refine ⟨by omega, by omega, by omega,
    ⟨_, _, getElem?_eq_getD (by omega), getElem?_eq_getD (by omega), hresult⟩, ?_⟩
  intro n hn
  have hunits : magnitudeUnits (percentilePosition sorted.length p).magnitude = n * oneUnits := by
    rw [← natAbs_units, hn, Int.natAbs_natCast]
  have hwhole := hwithin.toNat_of_units (by omega) hunits
  exact getElem?_of_position hwhole (by omega)

end Statistics

namespace Builtin

open Statistics

variable {args : List Value}

theorem apply_percentile (hp : between 0 100 (argument args 0) = true) :
    percentile.apply args = pure (.number (percentileOfSorted
      (sort (args.tail.map Value.asNumber)) (argument args 0))) := by
  unfold apply
  simp only [← List.map_tail, percentile?, if_pos hp]

theorem apply_percentile_of_not (hp : ¬ between 0 100 (argument args 0) = true) :
    percentile.apply args = throw (.percentileRange (argument args 0)) := by
  unfold apply
  simp only [percentile?, if_neg hp]

/-- It fails with the error of its range or gives a number, and where there are numbers to read,
they are read at positions that are in range. -/
theorem percentile_reads (hlt : args.tail.length < 2 ^ 53) :
    (percentile.apply args = throw (.percentileRange (argument args 0)) ↔
      (argument args 0).isNaN = true ∨ (argument args 0).lt 0 = true ∨
        Number.lt 100 (argument args 0) = true) ∧
    (¬ ((argument args 0).isNaN = true ∨ (argument args 0).lt 0 = true ∨
        Number.lt 100 (argument args 0) = true) →
      ∃ result, percentile.apply args = pure (.number result) ∧ (args.tail ≠ [] →
        PercentileRead (sort (args.tail.map Value.asNumber))
          (percentilePosition args.tail.length (argument args 0)) result)) := by
  rw [← not_between_iff, not_not]
  refine ⟨⟨fun h hp => ?_, apply_percentile_of_not⟩,
    fun hp => ⟨_, apply_percentile hp, fun hne => ?_⟩⟩
  · rw [apply_percentile hp] at h
    exact Evaluation.pure_ne_throw h
  · have hlength : (sort (args.tail.map Value.asNumber)).length = args.tail.length := by
      rw [length_sort, List.length_map]
    have hread := @percentileRead _ (sort (args.tail.map Value.asNumber)) hp
      (List.ne_nil_of_length_pos (by rw [hlength]; exact List.length_pos_iff.2 hne))
      (by rw [hlength]; exact hlt.le)
    rwa [hlength] at hread

/-- Of three numbers, the percentile of the largest percentage below `100` is interpolated between
the last two. -/
theorem percentile_reads_below_hundred :
    let p : Number := ⟨false, 0x4058FFFFFFFFFFFF, by decide⟩
    p.lt 100 = true ∧ ∃ result,
      percentile.apply [.number p, .number 3, .number 1, .number 2] = pure (.number result) ∧
      PercentileRead [1, 2, 3] (percentilePosition 3 p) result ∧
      (percentilePosition 3 p).floor.toNat = 1 ∧ (percentilePosition 3 p).ceil.toNat = 2 := by
  intro p
  have hsort : sort [3, 1, 2] = [1, 2, 3] :=
    (eq_sort (by decide +kernel) (by decide +kernel)).symm
  obtain ⟨-, hreads⟩ :=
    @percentile_reads [.number p, .number 3, .number 1, .number 2] (by decide)
  obtain ⟨result, happly, hread⟩ := hreads (by decide +kernel)
  have hread := hread (List.cons_ne_nil _ _)
  exact ⟨by decide +kernel, result, happly, hsort ▸ hread, by decide +kernel, by decide +kernel⟩

end Builtin

end EstimateSheet
