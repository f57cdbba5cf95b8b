import EstimateSheet.Proofs.SignedRounding

/-!
# Medians and the numbers around them

Half the sum of two numbers is rounded twice and still is not below the smaller or above the larger
one, if the sum does not overflow (`Number.place_half_sum`). The sum of two numbers overflows from
half a step above the largest number on (`Number.isFinite_ofUnits_iff`), and half of it is infinite
too then. So the median of an even number of finite numbers is between the two in the middle, or
infinite where these are too far from zero. That of an odd number of them is the number in the
middle, where the percentile `50` is too (`Statistics.median_between`).
-/

namespace EstimateSheet

namespace Number

variable {x y s : Number}

section Overflow

/-- The least count of units that is rounded to infinity, half a step above the largest number. -/
def overflowUnits : Nat := 0x3FFFFFFFFFFFFF <<< 2044

/-- It is as near to the largest number as to what follows it, and rounded to the latter. -/
theorem overflowUnits_tie :
    2 * overflowUnits =
        magnitudeUnits (infiniteMagnitude - 1) + magnitudeUnits infiniteMagnitude ∧
      nearestMagnitude overflowUnits 1 = infiniteMagnitude := by
  decide +kernel

theorem overflowUnits_bounds :
    0 < overflowUnits ∧ overflowUnits ≤ magnitudeUnits infiniteMagnitude := by
  have hnext := magnitudeUnits_lt_succ (infiniteMagnitude - 1)
  rw [Nat.sub_add_cancel (by decide)] at hnext
  have htie := overflowUnits_tie.1
  omega

theorem nearestMagnitude_eq_infinite_iff {count : Nat} :
    nearestMagnitude count 1 = infiniteMagnitude ↔ overflowUnits ≤ count := by
  constructor
  · intro h
    by_contra hlt
    have hlow : nearestMagnitude count 1 ≤ infiniteMagnitude - 1 := by
      refine nearestMagnitude_le_of_lt Nat.one_pos ?_
      have hsum := overflowUnits_tie.1
      rw [Nat.sub_add_cancel (by decide)]
      omega
    rw [h] at hlow
    exact absurd hlow (by decide)
  · intro h
    have hmono := nearestMagnitude_mono Nat.one_pos h
    exact Nat.le_antisymm (Nat.min_le_left _ _) (overflowUnits_tie.2.ge.trans hmono)

theorem isFinite_ofUnits_iff {count : Int} {negative : Bool} :
    (ofUnits count negative).isFinite = true ↔ count.natAbs < overflowUnits := by
  have hle : nearestMagnitude count.natAbs 1 ≤ infiniteMagnitude := Nat.min_le_left _ _
  have hiff := @nearestMagnitude_eq_infinite_iff count.natAbs
  rw [isFinite_iff, magnitude_ofUnits]
  omega

/-- A sum that overflows is the infinity with its sign. -/
theorem ofUnits_eq_infinite {count : Int} {negative : Bool}
    (h : ¬ (ofUnits count negative).isFinite = true) :
    ofUnits count negative = infinite (decide (count < 0)) := by
  rw [isFinite_ofUnits_iff, Nat.not_lt] at h
  have hpos := overflowUnits_bounds.1
  have hnearest := nearestMagnitude_eq_infinite_iff.2 h
  rw [ofUnits, if_neg (by omega), ofRatio]
  simp only [hnearest, infinite]

end Overflow

section Halving

/-- Twice a number is a number again, if it is not too far from zero. -/
theorem exists_units_two_mul (x : Number) :
    (∃ z : Number, z.isFinite = true ∧ z.units = 2 * x.units) ∨
      magnitudeUnits infiniteMagnitude ≤ 2 * magnitudeUnits x.magnitude := by
  obtain ⟨binade, quotient, hlow, hlt, hunits, -⟩ := exists_quotient x.magnitude
  rcases Nat.lt_or_ge 2044 binade with hlarge | hsmall
  · right
    have hquotient : 2 ^ 52 ≤ quotient := hlow.resolve_left (by omega)
    have hbeyond : infiniteMagnitude ≤ (binade + 1 + 1) * binadeSize :=
      Nat.mul_le_mul_right (n := 2047) binadeSize (by omega)
    calc magnitudeUnits infiniteMagnitude ≤ magnitudeUnits ((binade + 1 + 1) * binadeSize) :=
        magnitudeUnits_strictMono.monotone hbeyond
      _ = 2 ^ (52 + (binade + 1)) := magnitudeUnits_succ (binade + 1)
      _ = 2 * (2 ^ 52 * 2 ^ binade) := by ring
      _ ≤ 2 * (quotient * 2 ^ binade) :=
        Nat.mul_le_mul_left 2 (Nat.mul_le_mul_right _ hquotient)
      _ = 2 * magnitudeUnits x.magnitude := by rw [hunits]
  · left
    obtain ⟨z, hz, hzunits⟩ := exists_units hlt (binade + 1) (by omega) x.negative
    refine ⟨z, hz, ?_⟩
    rw [hzunits, units_eq_signed, hunits, Nat.pow_succ, ← Nat.mul_assoc, signed_mul, Int.mul_comm]
    rfl

theorem natAbs_units_lt (hs : s.isFinite = true) :
    s.units.natAbs < magnitudeUnits infiniteMagnitude := by
  rw [natAbs_units]
  exact magnitudeUnits_strictMono (isFinite_iff.1 hs)

variable {count : Int} {negative : Bool} (hs : (ofUnits count negative).isFinite = true)

include hs

/-- A sum that is at least twice a number is rounded to no less than that, unless it overflows. -/
theorem two_mul_units_le (h : 2 * x.units ≤ count) :
    2 * x.units ≤ (ofUnits count negative).units := by
  rcases exists_units_two_mul x with ⟨z, hz, hunits⟩ | hlarge
  · rw [← hunits] at h ⊢
    exact units_le_units_iff.2 (place_le_place_ofUnits hz h)
  · have hlt := natAbs_units_lt hs
    have hcount := isFinite_ofUnits_iff.1 hs
    have hinfinite := overflowUnits_bounds.2
    -- twice the number is beyond all finite ones, so it is on the other side of zero
    rw [← natAbs_units] at hlarge
    omega

theorem units_le_two_mul (h : count ≤ 2 * x.units) :
    (ofUnits count negative).units ≤ 2 * x.units := by
  have hneg : (ofUnits (-count) (!negative)).isFinite = true := by
    rw [ofUnits_neg]
    exact hs
  have hle := two_mul_units_le (x := -x) hneg (by
    rw [units_neg]
    omega)
  rw [ofUnits_neg, units_neg, units_neg] at hle
  omega

omit hs in
theorem half_eq (hs : s.isFinite = true) :
    s / 2 = ofRatio s.negative (magnitudeUnits s.magnitude) 2 := by
  have htwo : ¬ (2 : Number).isZero = true := Positive.two.not_isZero
  rw [div_of_isFinite hs isFinite_two htwo, magnitudeUnits_two, ofRatio, ofRatio]
  simp only [nearestMagnitude_mul _ _ oneUnits_pos, Positive.two.negative_eq, Bool.bne_false]

omit hs in
theorem place_half (hs : s.isFinite = true) (hx : x.isFinite = true) :
    (2 * x.units ≤ s.units → x.place ≤ (s / 2).place) ∧
      (s.units ≤ 2 * x.units → (s / 2).place ≤ x.place) := by
  have hmagnitude := (isFinite_iff.1 hx).le
  rw [half_eq hs]
  refine ⟨fun h => place_le_place_ofRatio Nat.two_pos hmagnitude ?_,
    fun h => place_ofRatio_le_place Nat.two_pos hmagnitude ?_⟩
  · rw [← units_eq_signed]
    exact (Int.mul_comm ..).trans_le h
  · rw [← units_eq_signed]
    exact h.trans_eq (Int.mul_comm ..)

omit hs in
/-- Half the sum of two numbers is between them, if the sum does not overflow. -/
theorem place_half_sum (hx : x.isFinite = true) (hy : y.isFinite = true) (h : x.place ≤ y.place)
    (hsum : (x + y).isFinite = true) :
    x.place ≤ ((x + y) / 2).place ∧ ((x + y) / 2).place ≤ y.place := by
  have hunits := units_le_units_iff.2 h
  rw [add_of_isFinite hx hy] at hsum ⊢
  exact ⟨(place_half hsum hx).1 (two_mul_units_le hsum (by omega)),
    (place_half hsum hy).2 (units_le_two_mul hsum (by omega))⟩

end Halving

/-- Half the sum of two numbers is finite where the sum is, and infinite else. -/
theorem half_sum_cases (hx : x.isFinite = true) (hy : y.isFinite = true)
    (h : x.place ≤ y.place) :
    (((x + y) / 2).isFinite = true ↔ (x.units + y.units).natAbs < overflowUnits) ∧
    (((x + y) / 2).isFinite = true →
      x.place ≤ ((x + y) / 2).place ∧ ((x + y) / 2).place ≤ y.place) ∧
    (¬ ((x + y) / 2).isFinite = true →
      (x + y) / 2 = infinite (decide (x.units + y.units < 0))) := by
  have hsum : (x + y).isFinite = true ↔ (x.units + y.units).natAbs < overflowUnits := by
    rw [add_of_isFinite hx hy]
    exact isFinite_ofUnits_iff
  have hhalf : ((x + y) / 2).isFinite = true ↔ (x + y).isFinite = true := by
    refine ⟨fun hfinite => (isFinite_of_div hfinite).1, fun hfinite => ?_⟩
    obtain ⟨hlow, hhigh⟩ := place_half_sum hx hy h hfinite
    exact isFinite_of_place hx hy hlow hhigh
  refine ⟨hhalf.trans hsum, fun hfinite => place_half_sum hx hy h (hhalf.1 hfinite),
    fun hinfinite => ?_⟩
  rw [hhalf] at hinfinite
  rw [add_of_isFinite hx hy] at hinfinite ⊢
  rw [ofUnits_eq_infinite hinfinite]
  exact infinite_div_natCast (n := 2) (by decide) _

section Middle

variable {k : Nat}

theorem half_mul_natCast (hk : k < 2 ^ 53) :
    0.5 * ((2 * k : Nat) : Number) = (k : Number) := by
  obtain ⟨magnitude, hfinite, hunits⟩ := exists_magnitudeUnits hk (1 + 1074) (by decide)
  have hcount : 2 * k * oneUnits = magnitudeUnits magnitude := by
    rw [hunits, ← two_pow_mul_oneUnits 1]
    ring
  have hnearest : nearestMagnitude (2 * k * oneUnits) 1 = magnitude := by
    rw [hcount, nearestMagnitude_units hfinite]
  have hdouble : ((2 * k : Nat) : Number).isFinite = true :=
    isFinite_iff.2 (hnearest.trans_lt hfinite)
  obtain ⟨hhalf, hfraction⟩ := magnitudeUnits_half
  have hmagnitude : magnitudeUnits ((2 * k : Nat) : Number).magnitude = 2 * k * oneUnits := by
    rw [hcount, ← hnearest]
    rfl
  have hproduct : magnitudeUnits (0.5 : Number).magnitude * (2 * k * oneUnits) =
      k * oneUnits * oneUnits := by
    calc magnitudeUnits (0.5 : Number).magnitude * (2 * k * oneUnits)
        = 2 * magnitudeUnits (0.5 : Number).magnitude * (k * oneUnits) := by ring
      _ = k * oneUnits * oneUnits := by rw [hhalf, Nat.mul_comm]
  have hscale := nearestMagnitude_mul (k * oneUnits) 1 oneUnits_pos
  rw [Nat.one_mul] at hscale
  rw [mul_of_isFinite hfraction hdouble, hmagnitude, hproduct, ofRatio]
  simp only [hscale]
  rfl

end Middle

end Number

open Number

namespace Statistics

variable {xs : List Number}

theorem median_of_odd (hodd : xs.length % 2 = 1) :
    (sort xs)[xs.length / 2]? = some (median xs) := by
  have hmedian : median xs = _ := if_pos hodd
  rw [hmedian]
  exact getD_sort (by omega)

theorem median_of_even (hne : xs ≠ []) (heven : xs.length % 2 = 0) :
    ∃ below above, (sort xs)[xs.length / 2 - 1]? = some below ∧
      (sort xs)[xs.length / 2]? = some above ∧ below.totalLe above = true ∧
      median xs = (below + above) / 2 := by
  have hpos : 0 < xs.length := List.length_pos_iff.2 hne
  have hmedian : median xs = _ := (if_neg (by omega)).trans (if_neg (by rwa [List.isEmpty_iff]))
  have hbelow := getD_sort (by omega : xs.length / 2 - 1 < xs.length)
  have habove := getD_sort (by omega : xs.length / 2 < xs.length)
  exact ⟨_, _, hbelow, habove,
    totalLe_of_getElem? (pairwise_sort xs) (by omega) hbelow habove, hmedian⟩

theorem fifty_hundredths : (50 / 100 : Number) = 0.5 ∧ Number.between 0 100 50 = true := by
  decide +kernel

/-- Of an odd number of numbers, the percentile `50` is the one in the middle. -/
theorem percentileOfSorted_fifty {sorted : List Number} (hodd : sorted.length % 2 = 1)
    (hlt : sorted.length < 2 ^ 54) :
    sorted[sorted.length / 2]? = some (percentileOfSorted sorted 50) := by
  have hlast : sorted.length - 1 = 2 * (sorted.length / 2) := by omega
  have hposition : percentilePosition sorted.length 50 = ((sorted.length / 2 : Nat) : Number) := by
    rw [percentilePosition, fifty_hundredths.1, hlast]
    exact half_mul_natCast (by omega)
  have hwhole := toNat_floor_natCast (k := sorted.length / 2) (by omega)
  rw [← hposition] at hwhole
  exact getElem?_of_position hwhole (by omega)

section Bounds

variable {least greatest x y middle : Number}

theorem between_iff :
    Number.between x y middle = true ↔ x.le middle = true ∧ middle.le y = true := by
  rw [between, Bool.and_eq_true]

/-- What is between two numbers of a list is between its ends. -/
theorem between_of_mem (hnumber : ∀ x ∈ xs, x.isNaN = false) (hmiddle : middle.isNaN = false)
    (hleast : least.LeastIn xs) (hgreatest : greatest.GreatestIn xs) (hx : x ∈ xs) (hy : y ∈ xs)
    (hlow : x.place ≤ middle.place) (hhigh : middle.place ≤ y.place) :
    Number.between x y middle = true ∧ Number.between least greatest middle = true := by
  have hleastx := le_iff.1 (hleast.le x hx)
  have hygreatest := le_iff.1 (hgreatest.le y hy)
  simp only [between_iff, le_iff]
  exact ⟨⟨⟨hnumber x hx, hmiddle, hlow⟩, hmiddle, hnumber y hy, hhigh⟩,
    ⟨hleastx.1, hmiddle, hleastx.2.2.trans hlow⟩, hmiddle, hygreatest.2.1,
    hhigh.trans hygreatest.2.2⟩

end Bounds

/-- The median of an odd number of finite numbers is the one in the middle, and the percentile `50`
is the same one as long as its position is exact, as it is with less than `2 ^ 54` numbers. That of
an even number of them is between the two in the middle, and so between the least and the greatest
one, if the sum of these two does not overflow. If it does, the median is infinite. -/
theorem median_between {args : List Value} {xs : List Number}
    (hargs : args.map Value.asNumber = xs) (hne : xs ≠ [])
    (hfinite : ∀ x ∈ xs, x.isFinite = true) :
    ∃ least greatest middle, Builtin.min.apply args = pure (.number least) ∧
      Builtin.max.apply args = pure (.number greatest) ∧
      Builtin.median.apply args = pure (.number middle) ∧
      (xs.length % 2 = 1 → (sort xs)[xs.length / 2]? = some middle ∧ middle.isFinite = true ∧
        Number.between least greatest middle = true ∧
        (xs.length < 2 ^ 54 →
          Builtin.percentile.apply (.number 50 :: args) = pure (.number middle))) ∧
      (xs.length % 2 = 0 → ∃ below above, (sort xs)[xs.length / 2 - 1]? = some below ∧
        (sort xs)[xs.length / 2]? = some above ∧
        (middle.isFinite = true ↔ (below.units + above.units).natAbs < overflowUnits) ∧
        (middle.isFinite = true → Number.between below above middle = true ∧
          Number.between least greatest middle = true) ∧
        (¬ middle.isFinite = true →
          middle = infinite (decide (below.units + above.units < 0)))) := by
  have hnumber : ∀ x ∈ xs, x.isNaN = false := fun x hx => isNaN_eq_false (hfinite x hx)
  have hmin : Builtin.min.apply args = pure (.number (minimum xs)) := hargs ▸ rfl
  have hmax : Builtin.max.apply args = pure (.number (maximum xs)) := hargs ▸ rfl
  have hmedian : Builtin.median.apply args = pure (.number (median xs)) := hargs ▸ rfl
  have hmem {i : Nat} {x : Number} (h : (sort xs)[i]? = some x) : x ∈ xs :=
    (sort_perm xs).mem_iff.1 (List.mem_of_getElem? h)
  rw [minimum_eq_leastOf hnumber] at hmin
  rw [maximum_eq_greatestOf hnumber] at hmax
  have hleast := Histogram.leastIn_leastOf hne hnumber
  have hgreatest := Histogram.greatestIn_greatestOf hne hnumber
  refine ⟨_, _, _, hmin, hmax, hmedian, fun hodd => ?_, fun heven => ?_⟩
  · have hmiddle := median_of_odd hodd
    have hx := hmem hmiddle
    refine ⟨hmiddle, hfinite _ hx, ?_, fun hlt => ?_⟩
    · exact (between_of_mem hnumber (hnumber _ hx) hleast hgreatest hx hx (Int.le_refl _)
        (Int.le_refl _)).2
    · have hsorted : (sort xs).length % 2 = 1 := by rwa [length_sort]
      have hfifty := percentileOfSorted_fifty hsorted (by rwa [length_sort])
      rw [length_sort, hmiddle, Option.some_inj] at hfifty
      have happly := @Builtin.apply_percentile (.number 50 :: args) fifty_hundredths.2
      rw [List.tail_cons, hargs] at happly
      rw [happly, hfifty]
      rfl
  · obtain ⟨below, above, hbelow, habove, hle, heq⟩ := median_of_even hne heven
    have hx := hmem hbelow
    have hy := hmem habove
    obtain ⟨hiff, hplace, hinfinite⟩ :=
      half_sum_cases (hfinite _ hx) (hfinite _ hy) (place_le_of_totalLe hle)
    rw [heq]
    refine ⟨below, above, hbelow, habove, hiff, fun hmiddle => ?_, hinfinite⟩
    obtain ⟨hlow, hhigh⟩ := hplace hmiddle
    exact between_of_mem hnumber (isNaN_eq_false hmiddle) hleast hgreatest hx hy hlow hhigh

/-- Of four numbers the median is the average of the middle ones, of three it is the middle one. -/
theorem median_between_four :
    (∃ least greatest middle,
      Builtin.min.apply [.number 4, .number 1, .number 3, .number 2] = pure (.number least) ∧
      Builtin.max.apply [.number 4, .number 1, .number 3, .number 2] = pure (.number greatest) ∧
      Builtin.median.apply [.number 4, .number 1, .number 3, .number 2] = pure (.number middle) ∧
      Number.between 2 3 middle = true ∧ Number.between least greatest middle = true) ∧
    Builtin.median.apply [.number 5, .boolean true, .number 3] = pure (.number 3) ∧
    Builtin.percentile.apply [.number 50, .number 5, .boolean true, .number 3] =
      pure (.number 3) := by
  have hfour : sort [4, 1, 3, 2] = [1, 2, 3, 4] :=
    (eq_sort (by decide +kernel) (by decide +kernel)).symm
  have hthree : sort [5, 1, 3] = [1, 3, 5] :=
    (eq_sort (by decide +kernel) (by decide +kernel)).symm
  obtain ⟨least, greatest, middle, hmin, hmax, hmedian, -, heven⟩ :=
    @median_between [.number 4, .number 1, .number 3, .number 2] [4, 1, 3, 2] rfl
      (List.cons_ne_nil _ _) (by decide +kernel)
  obtain ⟨below, above, hbelow, habove, hiff, hbetween, -⟩ := heven rfl
  rw [hfour] at hbelow habove
  obtain rfl : 2 = below := Option.some_inj.1 hbelow
  obtain rfl : 3 = above := Option.some_inj.1 habove
  obtain ⟨hmiddle, hends⟩ := hbetween (hiff.2 (by decide +kernel))
  refine ⟨⟨least, greatest, middle, hmin, hmax, hmedian, hmiddle, hends⟩, ?_⟩
  obtain ⟨_, _, middle', -, -, hmedian', hodd, -⟩ :=
    @median_between [.number 5, .boolean true, .number 3] [5, 1, 3] rfl
      (List.cons_ne_nil _ _) (by decide +kernel)
  obtain ⟨hat, -, -, hfifty⟩ := hodd rfl
  rw [hthree] at hat
  obtain rfl : 3 = middle' := Option.some_inj.1 hat
  exact ⟨hmedian', hfifty (by decide)⟩

/-- The largest number twice has an infinite median. -/
theorem median_overflows :
    let largest : Number := ⟨false, infiniteMagnitude - 1, by decide⟩
    largest.isFinite = true ∧
      Builtin.min.apply [.number largest, .number largest] = pure (.number largest) ∧
      Builtin.max.apply [.number largest, .number largest] = pure (.number largest) ∧
      Builtin.median.apply [.number largest, .number largest] = pure (.number (infinite false)) ∧
      ¬ Number.between largest largest (infinite false) = true := by
  intro largest
  have hsort : sort [largest, largest] = [largest, largest] :=
    (eq_sort (.refl _) (by decide +kernel)).symm
  have hmedian : median [largest, largest] = infinite false := by
    unfold median
    rw [hsort]
    decide +kernel
  have hmin : minimum [largest, largest] = largest := by decide +kernel
  have hmax : maximum [largest, largest] = largest := by decide +kernel
  have happly {x y : Number} (h : x = y) :
      (pure (.number x) : Evaluation Value) = pure (.number y) := by rw [h]
  exact ⟨by decide +kernel, happly hmin, happly hmax, happly hmedian, by decide +kernel⟩

end Statistics

end EstimateSheet
