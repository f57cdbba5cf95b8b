import EstimateSheet.Number.Integral
import EstimateSheet.Proofs.FiniteArithmetic
import EstimateSheet.Proofs.SortedSamples

/-!
# Where quantiles stand

The position of a quantile is a rounded product with `0.05` or `0.95`, and neither of these is a
number: the first stands for a little more and the second for a little less. Up to `2 ^ 48` samples
the error is too small to reach the next whole number, and where the exact product is a whole number
itself, rounding comes back to it (`toNat_floor_mul`). So the quantiles of a summary are the samples
at the exact positions, rounded down (`Summary.ofSamples?_quantiles`).
-/

namespace EstimateSheet

namespace Number

theorem toNat_natCast {n : Nat} (h : n < 2 ^ 53) : (n : Number).toNat = n := by
  have hfinite := isFinite_natCast h
  have hnan := isNaN_eq_false hfinite
  have hinfinite : ¬ (n : Number).isInfinite = true := fun h =>
    not_isFinite_of_isInfinite h hfinite
  have hnegative : (n : Number).negative = false := rfl
  rw [toNat, hnan, hnegative, Bool.or_self, if_neg Bool.false_ne_true, if_neg hinfinite,
    magnitudeUnits_natCast h, Nat.mul_div_cancel n oneUnits_pos]
  omega

/-- The whole part of a positive number that is not too large. -/
theorem toNat_floor {x : Number} (hfinite : x.isFinite = true) (hx : x.negative = false)
    (h : magnitudeUnits x.magnitude / oneUnits < 2 ^ 53) :
    x.floor.toNat = magnitudeUnits x.magnitude / oneUnits := by
  have hunits : x.units / oneUnits * oneUnits =
      (magnitudeUnits x.magnitude / oneUnits * oneUnits : Nat) := by
    rw [units_eq_magnitudeUnits hx, Int.natCast_mul, Int.natCast_ediv]
  rw [floor, if_pos hfinite, hx, hunits, ofUnits_natCast, toNat_natCast h]

section Products

variable {n k numerator shift factor : Nat}

theorem product_mul (hfactor : factor * 2 ^ shift = numerator * oneUnits) (n : Nat) :
    n * oneUnits * factor * 2 ^ shift = n * numerator * (oneUnits * oneUnits) := by
  rw [Nat.mul_assoc, hfactor]
  ring

/-- The product falls short of `k` by very little at most. -/
theorem le_nearestMagnitude_product (hfactor : factor * 2 ^ shift = numerator * oneUnits)
    (hk : k < 2 ^ 53) (hlow : (2 ^ 54 - 1) * (k * 2 ^ shift) < 2 ^ 54 * (n * numerator)) :
    (k : Number).magnitude ≤ nearestMagnitude (n * oneUnits * factor) oneUnits := by
  have hproduct := product_mul hfactor n
  refine le_nearestMagnitude_of_close oneUnits_pos (Nat.min_le_left _ _)
    (Nat.lt_of_mul_lt_mul_right (a := 2 ^ shift) ?_)
  calc (2 ^ 54 - 1) * (magnitudeUnits (k : Number).magnitude * oneUnits) * 2 ^ shift
      = (2 ^ 54 - 1) * (k * 2 ^ shift) * (oneUnits * oneUnits) := by
        rw [magnitudeUnits_natCast hk]; ring
    _ < 2 ^ 54 * (n * numerator) * (oneUnits * oneUnits) :=
      Nat.mul_lt_mul_of_pos_right hlow (Nat.mul_pos oneUnits_pos oneUnits_pos)
    _ = 2 ^ 54 * (n * oneUnits * factor) * 2 ^ shift := by
      rw [Nat.mul_assoc, ← hproduct]
      exact (Nat.mul_assoc ..).symm

/-- The product is at most `k + 31 / 32`, which is a number. -/
theorem nearestMagnitude_product_le (hfactor : factor * 2 ^ shift = numerator * oneUnits)
    (hk : k < 2 ^ 48) (hhigh : 2 ^ 5 * (n * numerator) ≤ (2 ^ 5 * k + 31) * 2 ^ shift) :
    ∃ bound < infiniteMagnitude, nearestMagnitude (n * oneUnits * factor) oneUnits ≤ bound ∧
      magnitudeUnits bound < (k + 1) * oneUnits := by
  have hproduct := product_mul hfactor n
  have hone : oneUnits = 2 ^ 5 * 2 ^ 1069 := by rw [← Nat.pow_add, oneUnits_eq]
  obtain ⟨bound, hbound, hunits⟩ :=
    exists_magnitudeUnits (show 2 ^ 5 * k + 31 < 2 ^ 53 by omega) 1069 (by decide)
  generalize 2 ^ 1069 = fraction at hone hunits
  have hfraction : 0 < fraction := Nat.pos_of_mul_pos_left (hone ▸ oneUnits_pos)
  refine ⟨bound, hbound, nearestMagnitude_le oneUnits_pos
    (Nat.le_of_mul_le_mul_right ?_ (Nat.two_pow_pos shift)), ?_⟩
  · calc n * oneUnits * factor * 2 ^ shift
        = 2 ^ 5 * (n * numerator) * (fraction * oneUnits) := by rw [hproduct, hone]; ring
      _ ≤ (2 ^ 5 * k + 31) * 2 ^ shift * (fraction * oneUnits) := Nat.mul_le_mul_right _ hhigh
      _ = magnitudeUnits bound * oneUnits * 2 ^ shift := by rw [hunits]; ring
  · calc magnitudeUnits bound = (2 ^ 5 * k + 31) * fraction := hunits
      _ < (2 ^ 5 * k + 32) * fraction := Nat.mul_lt_mul_of_pos_right (by omega) hfraction
      _ = (k + 1) * oneUnits := by rw [hone]; ring

end Products

/-- A count times a factor `numerator / 2 ^ shift`, rounded and then rounded down: `k`, if the exact
product falls short of `k` by very little at most and is not quite as large as `k + 1`. -/
theorem toNat_floor_mul {q : Number} {n k : Nat} (numerator shift : Nat)
    (hq : q.negative = false) (hfinite : q.isFinite = true)
    (hunits : magnitudeUnits q.magnitude * 2 ^ shift = numerator * oneUnits) (hn : n < 2 ^ 53)
    (hk : k < 2 ^ 48) (hlow : (2 ^ 54 - 1) * (k * 2 ^ shift) < 2 ^ 54 * (n * numerator))
    (hhigh : 2 ^ 5 * (n * numerator) ≤ (2 ^ 5 * k + 31) * 2 ^ shift) :
    ((n : Number) * q).floor.toNat = k := by
  have hproduct : (n : Number) * q =
      ofRatio false (n * oneUnits * magnitudeUnits q.magnitude) oneUnits := by
    rw [mul_of_isFinite (isFinite_natCast hn) hfinite, magnitudeUnits_natCast hn, hq]
    rfl
  have hbelow := le_nearestMagnitude_product hunits (by omega : k < 2 ^ 53) hlow
  obtain ⟨bound, hbound, habove, hlt⟩ := nearestMagnitude_product_le hunits hk hhigh
  have hwhole : magnitudeUnits (nearestMagnitude (n * oneUnits * magnitudeUnits q.magnitude)
      oneUnits) / oneUnits = k := by
    have hcount := magnitudeUnits_strictMono.monotone hbelow
    rw [magnitudeUnits_natCast (by omega)] at hcount
    exact Nat.div_eq_of_lt_le hcount ((magnitudeUnits_strictMono.monotone habove).trans_lt hlt)
  rw [hproduct, toNat_floor (isFinite_iff.2 (habove.trans_lt hbound)) rfl]
  · exact hwhole
  · rw [ofRatio, hwhole]
    omega

theorem toNat_floor_low {n : Nat} (hpos : 0 < n) (hn : n < 2 ^ 48) :
    ((n : Number) * 0.05).floor.toNat = n / 20 :=
  toNat_floor_mul 7205759403792794 57 rfl (by decide +kernel) (by decide +kernel)
    (by omega) (by omega) (by omega) (by omega)

theorem toNat_floor_high {n : Nat} (hpos : 0 < n) (hn : n < 2 ^ 48) :
    ((n : Number) * 0.95).floor.toNat = 19 * n / 20 :=
  toNat_floor_mul 8556839292003942 53 rfl (by decide +kernel) (by decide +kernel)
    (by omega) (by omega) (by omega) (by omega)

theorem getElem?_eq_getD {xs : List Number} {i : Nat} (h : i < xs.length) :
    xs[i]? = some (xs.getD i absent) := by
  rw [List.getD_eq_getElem?_getD, List.getElem?_eq_getElem h, Option.getD_some]

theorem getD_sort {samples : List Number} {i : Nat} (h : i < samples.length) :
    (sort samples)[i]? = some ((sort samples).getD i absent) :=
  getElem?_eq_getD (by rwa [length_sort])

theorem totalLe_of_getElem? {sorted : List Number} {x y : Number} {i j : Nat}
    (hsorted : sorted.Pairwise fun x y => x.totalLe y = true) (hij : i ≤ j)
    (hx : sorted[i]? = some x) (hy : sorted[j]? = some y) : x.totalLe y = true := by
  rcases Nat.eq_or_lt_of_le hij with rfl | hlt
  · rw [Option.some_inj.1 (hx.symm.trans hy)]
    exact totalLe_refl y
  · obtain ⟨hi, rfl⟩ := List.getElem?_eq_some_iff.1 hx
    obtain ⟨hj, rfl⟩ := List.getElem?_eq_some_iff.1 hy
    exact List.pairwise_iff_getElem.1 hsorted i j hi hj hlt

end Number

open Number

namespace Summary

/-- The quantiles of a summary are read off some sorted samples. -/
structure ReadOff (summary : Summary) (sorted : List Number) : Prop where
  least : sorted[0]? = some summary.least
  low : sorted[sorted.length / 20]? = some summary.low
  median : sorted[sorted.length / 2]? = some summary.median
  high : sorted[19 * sorted.length / 20]? = some summary.high
  greatest : sorted[sorted.length - 1]? = some summary.greatest

/-- The quantiles from the smallest to the largest one. -/
def quantiles (summary : Summary) : List Number :=
  [summary.least, summary.low, summary.median, summary.high, summary.greatest]

variable {summary : Summary} {samples sorted : List Number}

theorem ReadOff.mem (h : summary.ReadOff sorted) : ∀ x ∈ summary.quantiles, x ∈ sorted := by
  simp only [quantiles, List.forall_mem_cons]
  exact ⟨List.mem_of_getElem? h.least, List.mem_of_getElem? h.low, List.mem_of_getElem? h.median,
    List.mem_of_getElem? h.high, List.mem_of_getElem? h.greatest, fun _ h => nomatch h⟩

theorem ReadOff.pairwise (h : summary.ReadOff sorted)
    (hsorted : sorted.Pairwise fun x y => x.totalLe y = true) :
    summary.quantiles.Pairwise fun x y => x.totalLe y = true := by
  have hhigh := (List.getElem?_eq_some_iff.1 h.high).1
  have htrans : IsTrans Number fun x y => x.totalLe y = true := ⟨totalLe_trans⟩
  refine List.isChain_iff_pairwise.1 ?_
  simp only [quantiles, List.isChain_cons_cons]
  exact ⟨totalLe_of_getElem? hsorted (Nat.zero_le _) h.least h.low,
    totalLe_of_getElem? hsorted (by omega) h.low h.median,
    totalLe_of_getElem? hsorted (by omega) h.median h.high,
    totalLe_of_getElem? hsorted (by omega) h.high h.greatest, .singleton _⟩

theorem position_low {n : Nat} (hpos : 0 < n) (hn : n < 2 ^ 48) : position n 0.05 = n / 20 := by
  rw [position, toNat_floor_low hpos hn]
  omega

theorem position_high {n : Nat} (hpos : 0 < n) (hn : n < 2 ^ 48) :
    position n 0.95 = 19 * n / 20 := by
  rw [position, toNat_floor_high hpos hn]
  omega

/-- The positions that are computed with numbers are the exact ones. -/
theorem exists_readOff (hne : samples ≠ []) (hlt : samples.length < 2 ^ 48) :
    ∃ summary, ofSamples? samples = some summary ∧ summary.ReadOff (sort samples) := by
  have hpos : 0 < samples.length := List.length_pos_iff.2 hne
  refine ⟨_, if_neg (by rwa [List.isEmpty_iff]), getD_sort hpos, ?_, ?_, ?_, ?_⟩
  · rw [length_sort, ← position_low hpos hlt]
    exact getD_sort (by rw [position]; omega)
  · rw [length_sort]
    exact getD_sort (by omega)
  · rw [length_sort, ← position_high hpos hlt]
    exact getD_sort (by rw [position]; omega)
  · rw [length_sort]
    exact getD_sort (by omega)

/-- The rounded products are the exact positions before they are kept in range. What is found there
in the sorted samples are the quantiles, so they are samples and in order. -/
theorem ofSamples?_quantiles (hne : samples ≠ []) (hlt : samples.length < 2 ^ 48) :
    ((samples.length : Number) * 0.05).floor.toNat = samples.length / 20 ∧
    ((samples.length : Number) * 0.95).floor.toNat = 19 * samples.length / 20 ∧
    (sort samples).Perm samples ∧ ((sort samples).Pairwise fun x y => x.totalLe y = true) ∧
    ∃ summary, ofSamples? samples = some summary ∧ summary.ReadOff (sort samples) ∧
      (∀ x ∈ summary.quantiles, x ∈ samples) ∧
      summary.quantiles.Pairwise fun x y => x.totalLe y = true := by
  have hpos : 0 < samples.length := List.length_pos_iff.2 hne
  obtain ⟨summary, hsummary, hread⟩ := exists_readOff hne hlt
  exact ⟨toNat_floor_low hpos hlt, toNat_floor_high hpos hlt, sort_perm samples,
    pairwise_sort samples, summary, hsummary, hread,
    fun x hx => (sort_perm samples).mem_iff.1 (hread.mem x hx),
    hread.pairwise (pairwise_sort samples)⟩

/-- Of twenty samples the second and the last are the ends of the central nine tenths. -/
theorem ofSamples?_quantiles_twenty : ∃ summary,
    ofSamples? ((List.range 20).map fun k : Nat => (k : Number)).reverse = some summary ∧
      summary.quantiles = [0, 1, 10, 19, 19] := by
  have hlength : ((List.range 20).map fun k : Nat => (k : Number)).reverse.length = 20 := rfl
  have hsort : sort ((List.range 20).map fun k : Nat => (k : Number)).reverse =
      (List.range 20).map fun k : Nat => (k : Number) :=
    (eq_sort (List.reverse_perm _).symm (by decide +kernel)).symm
  obtain ⟨-, -, -, -, summary, hsummary, hread, -⟩ :=
    ofSamples?_quantiles (List.ne_nil_of_length_pos (by rw [hlength]; decide))
      (by rw [hlength]; decide)
  rw [hsort] at hread
  refine ⟨summary, hsummary, ?_⟩
  rw [quantiles, ← Option.some_inj.1 hread.least, ← Option.some_inj.1 hread.low,
    ← Option.some_inj.1 hread.median, ← Option.some_inj.1 hread.high,
    ← Option.some_inj.1 hread.greatest]
  rfl

end Summary

end EstimateSheet
