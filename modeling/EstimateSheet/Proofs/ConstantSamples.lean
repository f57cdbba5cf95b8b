import EstimateSheet.Proofs.SquareRoot
import EstimateSheet.Statistics.Ranking
import Mathlib.Data.List.Zip

/-!
# Samples that are all the same

The mean of equal samples is not always their value, as the sum and the quotient are rounded. What
they differ by is the same for all of them, their `Regression.residue`. If its square is zero or too
large there is no regression with such samples. Otherwise there is one: with the samples of
`Regression.contrast`, which have an exact mean and with equal samples no covariance, all statistics
come out finite (`Regression.of?_contrast_ne_none`,
`Regression.of?_replicate_contrast_ne_none`). The residue is zero where the multiples of the value
are numbers, so that nothing is rounded (`Regression.isZero_residue`).
-/

namespace EstimateSheet

namespace Number

variable {x y : Number}

theorem isZero_foldl_replicate {s : Number} (hs : s.isZero = true) (hx : x.isZero = true) :
    ∀ n, ((List.replicate n x).foldl (· + ·) s).isZero = true
  | 0 => hs
  | n + 1 => by
    rw [List.replicate_succ, List.foldl_cons]
    exact isZero_foldl_replicate (isZero_add hs hx) hx n

theorem Positive.not_eq_zero (hx : x.Positive) : ¬ x.eq 0 = true := by
  have hplace := place_eq_magnitude hx.negative_eq
  have hzero : (0 : Number).place = 0 := rfl
  have hpos := hx.magnitude_pos
  rw [eq, hplace, hzero, Bool.and_eq_true, beq_iff_eq]
  omega

/-- The sum of `n` positive numbers is at least the `n`-th magnitude. -/
theorem Positive.foldl_replicate (hx : x.Positive) : ∀ n, n < 2 ^ 53 →
    ((List.replicate n x).foldl (· + ·) 0).negative = false ∧
      n ≤ ((List.replicate n x).foldl (· + ·) 0).magnitude ∧
      ((List.replicate n x).foldl (· + ·) 0).magnitude ≤ infiniteMagnitude
  | 0, _ => ⟨rfl, Nat.zero_le _, Nat.zero_le _⟩
  | n + 1, hn => by
    obtain ⟨hsign, hlow, hhigh⟩ := hx.foldl_replicate n (by omega)
    rw [List.replicate_succ', List.foldl_append]
    exact Positive.add hsign hhigh hx hlow hn

/-- Where the multiples of a number are numbers, adding it up is exact. -/
theorem units_sum_replicate (hx : x.isFinite = true) : ∀ n : Nat,
    (∀ k ≤ n, ∃ y : Number, y.isFinite = true ∧ y.units = k * x.units) →
    (sum (List.replicate n x)).units = n * x.units ∧ (sum (List.replicate n x)).isFinite = true
  | 0, _ => ⟨by rw [Int.natCast_zero, Int.zero_mul]; exact units_eq_zero_iff.2 rfl, rfl⟩
  | n + 1, h => by
    obtain ⟨hunits, hfinite⟩ := units_sum_replicate hx n fun k hk => h k (by omega)
    obtain ⟨y, hy, hyunits⟩ := h (n + 1) (Nat.le_refl _)
    rw [sum, List.replicate_succ', List.foldl_append]
    have hadd := units_add hfinite hx hy (by
      rw [hunits, hyunits, Nat.cast_add_one, Int.add_mul, Int.one_mul])
    rwa [hyunits] at hadd

end Number

namespace Sensitivity

variable {target samples : List Number} {candidates : List (String × List Number)}

/-- A variable without a regression takes no part in a ranking. -/
theorem rank_skip (h : Regression.of? target samples = none)
    (before after : List (String × List Number)) (name : String) (limit : Nat) :
    rank target (before ++ (name, samples) :: after) limit =
      rank target (before ++ after) limit := by
  have hcandidates : ofCandidates target (before ++ (name, samples) :: after) =
      ofCandidates target (before ++ after) := by
    simp [ofCandidates, h]
  rw [rank, rank, hcandidates]

theorem rank_eq_nil (h : ∀ samples, Regression.of? target samples = none) (limit : Nat) :
    rank target candidates limit = [] := by
  have hcandidates : ofCandidates target candidates = [] := by
    simp [ofCandidates, h]
  rw [rank, hcandidates, List.mergeSort_nil, List.take_nil]

end Sensitivity

namespace Regression

open Number

/-- By how much equal samples differ from their mean as it comes out. -/
def residue (n : Nat) (c : Number) : Number := c - Statistics.mean (List.replicate n c)

theorem deviations_replicate (n : Nat) (c : Number) :
    deviations (List.replicate n c) = List.replicate n (residue n c) :=
  List.map_replicate

theorem foldl_products_replicate (s x y : Number) (n : Nat) :
    (List.replicate n (x, y)).foldl (fun s (x, y) => s + x * y) s =
      (List.replicate n (x * y)).foldl (· + ·) s := by
  have hmap : List.replicate n (x * y) = (List.replicate n (x, y)).map fun p => p.1 * p.2 := by
    rw [List.map_replicate]
  rw [hmap, List.foldl_map]

theorem sumOfProducts_replicate (n : Nat) (x y : Number) :
    sumOfProducts (List.replicate n x) (List.replicate n y) =
      (List.replicate n (x * y)).foldl (· + ·) 0 := by
  rw [sumOfProducts, List.zip_replicate', foldl_products_replicate]

theorem sumOfProducts_comm {xs ys : List Number} (hxs : ∀ x ∈ xs, x.isFinite = true)
    (hys : ∀ y ∈ ys, y.isFinite = true) : sumOfProducts xs ys = sumOfProducts ys xs := by
  rw [sumOfProducts, sumOfProducts, ← List.zip_swap, List.foldl_map]
  refine List.foldl_ext _ _ _ fun s p hp => ?_
  obtain ⟨hy, hx⟩ := List.of_mem_zip hp
  exact congrArg (s + ·) (mul_comm_of_isFinite (hxs _ hx) (hys _ hy))

theorem isFinite_of_foldl : ∀ {pairs : List (Number × Number)} {s : Number},
    (pairs.foldl (fun s (x, y) => s + x * y) s).isFinite = true →
      s.isFinite = true ∧ ∀ p ∈ pairs, (p.1 * p.2).isFinite = true
  | [], _, h => ⟨h, nofun⟩
  | p :: pairs, s, h => by
    obtain ⟨hs, hall⟩ := @isFinite_of_foldl pairs _ h
    obtain ⟨hs, hp⟩ := isFinite_of_add hs
    exact ⟨hs, List.forall_mem_cons.2 ⟨hp, hall⟩⟩

/-- A sum of products is finite only if all the numbers in it are. -/
theorem isFinite_of_sumOfProducts {xs ys : List Number} (h : (sumOfProducts xs ys).isFinite = true)
    {p : Number × Number} (hp : p ∈ xs.zip ys) : p.1.isFinite = true ∧ p.2.isFinite = true :=
  isFinite_of_mul ((isFinite_of_foldl h).2 p hp)

section Results

variable {target samples : List Number} {r : Regression}

/-- The sum of the squares of the deviations. -/
def squares (xs : List Number) : Number := sumOfProducts (deviations xs) (deviations xs)

/-- There is no regression unless these statistics are finite and not zero. -/
theorem of?_eq_some (h : of? target samples = some r) : target.length = samples.length ∧
    (sumOfProducts (deviations samples) (deviations target)).isFinite = true ∧
    (squares samples).isFinite = true ∧ ¬ (squares samples).isZero = true ∧
    ¬ (squares target).isZero = true := by
  unfold of? at h
  dsimp only at h
  split_ifs at h with hlen hxx hfinite
  simp only [List.all_cons, List.all_nil, Bool.and_true, Bool.and_eq_true] at hfinite
  obtain ⟨hslope, -, hrSquared, hbeta⟩ := hfinite
  obtain ⟨hxy, -, hne⟩ := isFinite_of_div hslope
  obtain ⟨-, hnan, hprod⟩ := isFinite_of_div hrSquared
  have hspread := (isFinite_of_div (isFinite_of_mul hbeta).2).1
  refine ⟨?_, hxy, ?_, hne, fun hzero => ?_⟩
  · simp only [Bool.or_eq_true, not_or, bne_iff_ne, not_not] at hlen
    exact hlen.1
  · by_contra hinfinite
    exact not_isFinite_sqrt (fun hfinite => hinfinite (isFinite_of_div hfinite).1) hspread
  · exact (isZero_or_isNaN_mul hzero).elim hprod hnan

/-- A target without covariance has a regression all the same, with slope zero. -/
theorem of?_ne_none (hlen : target.length = samples.length) (hpos : 0 < target.length)
    (hxy : (sumOfProducts (deviations samples) (deviations target)).isZero = true)
    (hxx : (squares samples).Positive) (hproduct : (squares samples * squares target).Positive)
    (hx : (Statistics.mean samples).isFinite = true) (hy : (Statistics.mean target).isFinite = true)
    (hspread : ((squares samples / ((target.length : Number) - 1)).sqrt /
      (squares target / ((target.length : Number) - 1)).sqrt).isFinite = true) :
    of? target samples ≠ none := by
  have hdefined : ¬ (target.length != samples.length || target.isEmpty) = true := by
    have hne : target ≠ [] := List.ne_nil_of_length_pos hpos
    simp [hlen, hne]
  have hslope := isZero_div hxy hxx.not_isZero hxx.not_isNaN
  have hintercept := isFinite_sub_zero hy (isZero_mul_left hslope hx)
  have hsquare := isZero_mul_left hxy (isFinite_of_isZero hxy)
  have hrSquared := isZero_div hsquare hproduct.not_isZero hproduct.not_isNaN
  have hbeta := isZero_mul_left hslope hspread
  refine ne_of_eq_of_ne ((if_neg hdefined).trans ((if_neg hxx.not_eq_zero).trans (if_pos ?_)))
    (Option.some_ne_none _)
  simp only [List.all_cons, List.all_nil, Bool.and_true, Bool.and_eq_true]
  exact ⟨isFinite_of_isZero hslope, hintercept, isFinite_of_isZero hrSquared,
    isFinite_of_isZero hbeta⟩

theorem of?_nil : of? [] samples = none := by
  rw [of?, if_pos (by simp)]

theorem of?_eq_none_of_not {target samples : List Number}
    (h : ¬ ((sumOfProducts (deviations samples) (deviations target)).isFinite = true ∧
      (squares samples).isFinite = true ∧ ¬ (squares samples).isZero = true ∧
      ¬ (squares target).isZero = true)) : of? target samples = none := by
  rcases hof : of? target samples with _ | r
  · rfl
  · exact absurd (of?_eq_some hof).2 h

end Results

section Equal

variable {n : Nat} {c : Number}

theorem isZero_squares_replicate (h : (residue n c * residue n c).isZero = true) :
    (squares (List.replicate n c)).isZero = true := by
  rw [squares, deviations_replicate, sumOfProducts_replicate]
  exact isZero_foldl_replicate rfl h n

theorem positive_squares_replicate (hpos : 0 < n) (hn : n < 2 ^ 53)
    (hfinite : (residue n c).isFinite = true)
    (h : ¬ (residue n c * residue n c).isZero = true) :
    (squares (List.replicate n c)).Positive := by
  rw [squares, deviations_replicate, sumOfProducts_replicate]
  obtain ⟨hsign, hlow, hhigh⟩ := (Positive.mul_self hfinite h).foldl_replicate n hn
  exact ⟨hsign, hpos.trans_le hlow, hhigh⟩

/-- The sum of the squares has grown enough to be divided by their number. -/
theorem positive_variance_replicate {k : Nat} (hk : k + 2 < 2 ^ 53)
    (hfinite : (residue (k + 2) c).isFinite = true)
    (h : ¬ (residue (k + 2) c * residue (k + 2) c).isZero = true) :
    (squares (List.replicate (k + 2) c) / ((k + 1 : Nat) : Number)).Positive := by
  refine (positive_squares_replicate (by omega) hk hfinite h).div_natCast (by omega) (by omega) ?_
  rw [squares, deviations_replicate, sumOfProducts_replicate]
  obtain ⟨-, hlow, -⟩ := (Positive.mul_self hfinite h).foldl_replicate (k + 2) hk
  exact (Nat.le_succ _).trans (hlow.trans (le_magnitudeUnits _))

/-- The deviations of equal samples are among the factors of the sum. -/
theorem isFinite_residue {xs : List Number} (hpos : 0 < n) (hlen : xs.length = n)
    (h : (sumOfProducts xs (deviations (List.replicate n c))).isFinite = true) :
    (residue n c).isFinite = true := by
  rw [deviations_replicate] at h
  obtain ⟨x, xs, rfl⟩ := List.exists_cons_of_length_pos (hlen ▸ hpos)
  obtain ⟨n, rfl⟩ := Nat.exists_eq_succ_of_ne_zero hpos.ne'
  exact (isFinite_of_sumOfProducts h List.mem_cons_self).2

theorem isFinite_residue_of_squares (hpos : 0 < n)
    (h : (squares (List.replicate n c)).isFinite = true) : (residue n c).isFinite = true :=
  isFinite_residue hpos (by rw [deviations, List.length_map, List.length_replicate]) h

theorem of?_replicate_eq_none {target : List Number}
    (h : (residue n c * residue n c).isZero = true ∨
      ¬ (squares (List.replicate n c)).isFinite = true) :
    of? target (List.replicate n c) = none := by
  refine of?_eq_none_of_not ?_
  rintro ⟨-, hfinite, hne, -⟩
  exact h.elim (fun hzero => hne (isZero_squares_replicate hzero)) fun hnot => hnot hfinite

theorem of?_replicate_target_eq_none {samples : List Number}
    (h : (residue n c * residue n c).isZero = true ∨ ¬ (residue n c).isFinite = true) :
    of? (List.replicate n c) samples = none := by
  rcases Nat.eq_zero_or_pos n with rfl | hpos
  · exact of?_nil
  rcases hof : of? (List.replicate n c) samples with _ | r
  · rfl
  · obtain ⟨hlen, hxy, -, -, hne⟩ := of?_eq_some hof
    rw [List.length_replicate] at hlen
    have hfinite := isFinite_residue hpos (by rw [deviations, List.length_map, hlen]) hxy
    exact (h.elim (fun hzero => hne (isZero_squares_replicate hzero)) fun hnot => hnot hfinite).elim

end Equal

section Contrast

/-- Two samples on either side of zero, and `k` zeros. -/
def contrast (k : Nat) : List Number := -1 :: 1 :: List.replicate k 0

theorem foldl_replicate_eq_self {α β : Type} {f : α → β → α} {s : α} {b : β} (h : f s b = s) :
    ∀ k, (List.replicate k b).foldl f s = s
  | 0 => rfl
  | k + 1 => by rw [List.replicate_succ, List.foldl_cons, h, foldl_replicate_eq_self h k]

variable {k : Nat} {d : Number}

theorem length_contrast : (contrast k).length = k + 2 := by
  simp [contrast]

theorem mean_contrast (hk : k + 2 < 2 ^ 53) : Statistics.mean (contrast k) = 0 := by
  have hpair : (zero true + -1 : Number) + 1 = 0 := by decide +kernel
  have hsum : sum (contrast k) = 0 := by
    rw [sum, contrast, List.foldl_cons, List.foldl_cons, hpair,
      foldl_replicate_eq_self (by decide +kernel)]
  have hcount := Positive.natCast (n := k + 2) (by omega)
  have hzero := isZero_div (x := 0) rfl hcount.not_isZero hcount.not_isNaN
  have hsign : ((0 : Number) / ((k + 2 : Nat) : Number)).negative = false := by
    rw [div_of_isFinite (isFinite_of_isZero rfl) (isFinite_natCast hk) hcount.not_isZero]
    rfl
  rw [Statistics.mean, hsum, length_contrast, eq_zero hzero, hsign]
  decide +kernel

theorem deviations_contrast (hk : k + 2 < 2 ^ 53) : deviations (contrast k) = contrast k := by
  have hlow : (-1 - 0 : Number) = -1 := by decide +kernel
  have hhigh : (1 - 0 : Number) = 1 := by decide +kernel
  have hmiddle : (0 - 0 : Number) = 0 := by decide +kernel
  rw [deviations, mean_contrast hk, contrast, List.map_cons, List.map_cons, List.map_replicate,
    hlow, hhigh, hmiddle]

theorem squares_contrast (hk : k + 2 < 2 ^ 53) : squares (contrast k) = 2 := by
  have hpair : (0 + -1 * -1 : Number) + 1 * 1 = 2 := by decide +kernel
  rw [squares, deviations_contrast hk, sumOfProducts, contrast, List.zip_cons_cons,
    List.zip_cons_cons, List.zip_replicate', List.foldl_cons, List.foldl_cons]
  dsimp only
  rw [hpair, foldl_replicate_eq_self (by decide +kernel)]

/-- The two sides have opposite products with the same number. -/
theorem isZero_opposite (hd : d.isFinite = true) : ((0 + -1 * d) + 1 * d).isZero = true := by
  rw [neg_mul_of_isFinite isFinite_one hd, one_mul_of_isFinite hd]
  have hzero : (0 : Number).units = 0 := units_eq_zero_iff.2 rfl
  obtain ⟨hunits, hfinite⟩ := units_add (x := 0) (y := -d) (z := -d) (isFinite_of_isZero rfl) hd hd
    (by rw [hzero, Int.zero_add])
  have hsum := units_add (z := 0) hfinite hd (isFinite_of_isZero rfl)
    (by rw [hunits, units_neg, hzero, Int.add_left_neg])
  rw [← units_eq_zero_iff, hsum.1, hzero]

theorem isZero_sumOfProducts_contrast (hd : d.isFinite = true) :
    (sumOfProducts (contrast k) (List.replicate (k + 2) d)).isZero = true := by
  rw [sumOfProducts, contrast, List.replicate_succ, List.replicate_succ, List.zip_cons_cons,
    List.zip_cons_cons, List.zip_replicate', List.foldl_cons, List.foldl_cons,
    foldl_products_replicate]
  exact isZero_foldl_replicate (isZero_opposite hd) (isZero_mul_left rfl hd) k

theorem isFinite_of_mem_contrast {x : Number} (h : x ∈ contrast k) : x.isFinite = true := by
  rcases List.mem_cons.1 h with rfl | h
  · exact isFinite_one
  · rcases List.mem_cons.1 h with rfl | h
    · exact isFinite_one
    · obtain rfl := List.eq_of_mem_replicate h
      exact isFinite_of_isZero rfl

theorem isZero_sumOfProducts_contrast_right (hd : d.isFinite = true) :
    (sumOfProducts (List.replicate (k + 2) d) (contrast k)).isZero = true := by
  have hsamples : ∀ x ∈ List.replicate (k + 2) d, x.isFinite = true := fun x h =>
    List.eq_of_mem_replicate h ▸ hd
  rw [sumOfProducts_comm hsamples fun x => isFinite_of_mem_contrast]
  exact isZero_sumOfProducts_contrast hd

theorem oneUnits_le_two : oneUnits ≤ magnitudeUnits (2 : Number).magnitude := by
  rw [magnitudeUnits_two]
  exact Nat.le_mul_of_pos_left _ Nat.two_pos

theorem count_sub_one (hk : k + 2 < 2 ^ 53) :
    ((k + 2 : Nat) : Number) - 1 = ((k + 1 : Nat) : Number) :=
  natCast_sub_one (by omega) hk

variable {c : Number}

/-- A finite variance is in reach of that of the contrast. -/
theorem of?_contrast_ne_none (hk : k + 2 < 2 ^ 53)
    (hne : ¬ (residue (k + 2) c * residue (k + 2) c).isZero = true)
    (hfinite : (squares (List.replicate (k + 2) c)).isFinite = true) :
    of? (contrast k) (List.replicate (k + 2) c) ≠ none := by
  have hresidue := isFinite_residue_of_squares (by omega) hfinite
  have hpositive := positive_squares_replicate (by omega) hk hresidue hne
  have hvariance := positive_variance_replicate hk hresidue hne
  have hle := hpositive.div_natCast_le (n := k + 1) (by omega) (by omega) hfinite
  have hlt := hle.trans_lt (isFinite_iff.1 hfinite)
  obtain ⟨htwo, -, hlog, -⟩ := Positive.two_div_natCast (n := k + 1) (by omega) (by omega)
  refine of?_ne_none (by simp [length_contrast]) (by simp [length_contrast]) ?_ hpositive
    ?_ ?_ ?_ ?_
  · rw [deviations_replicate, deviations_contrast hk]
    exact isZero_sumOfProducts_contrast_right hresidue
  · rw [squares_contrast hk]
    exact hpositive.mul Positive.two
      (oneUnits_le_two.trans (Nat.le_mul_of_pos_left _ hpositive.units_pos))
  · exact (isFinite_of_sub hresidue).2
  · rw [mean_contrast hk]
    rfl
  · rw [squares_contrast hk, length_contrast, count_sub_one hk]
    refine hvariance.isFinite_div_sqrt htwo (isFinite_iff.2 hlt) fun _ => ?_
    have := log2_magnitudeUnits_lt hlt
    omega

/-- An infinite variance of the target is no obstacle: whatever is divided by it is zero. -/
theorem of?_replicate_contrast_ne_none (hk : k + 2 < 2 ^ 53)
    (hne : ¬ (residue (k + 2) c * residue (k + 2) c).isZero = true)
    (hresidue : (residue (k + 2) c).isFinite = true) :
    of? (List.replicate (k + 2) c) (contrast k) ≠ none := by
  have hpositive := positive_squares_replicate (by omega) hk hresidue hne
  have hvariance := positive_variance_replicate hk hresidue hne
  obtain ⟨htwo, hfinite, -, hlog⟩ := Positive.two_div_natCast (n := k + 1) (by omega) (by omega)
  refine of?_ne_none (by simp [length_contrast]) (by simp) ?_ ?_ ?_ ?_ ?_ ?_
  · rw [deviations_replicate, deviations_contrast hk]
    exact isZero_sumOfProducts_contrast hresidue
  · rw [squares_contrast hk]
    exact Positive.two
  · rw [squares_contrast hk]
    exact Positive.two.mul hpositive
      (oneUnits_le_two.trans (Nat.le_mul_of_pos_right _ hpositive.units_pos))
  · rw [mean_contrast hk]
    rfl
  · exact (isFinite_of_sub hresidue).2
  · rw [squares_contrast hk, List.length_replicate, count_sub_one hk]
    exact htwo.isFinite_div_sqrt hvariance hfinite fun _ => by omega

end Contrast

section Exact

variable {n : Nat} {c : Number}

/-- Where the sum is exact, so is the mean. -/
theorem units_mean_replicate (hpos : 0 < n) (hn : n < 2 ^ 53) (hc : c.isFinite = true)
    (h : ∀ k ≤ n, ∃ y : Number, y.isFinite = true ∧ y.units = k * c.units) :
    (Statistics.mean (List.replicate n c)).units = c.units ∧
      (Statistics.mean (List.replicate n c)).isFinite = true := by
  obtain ⟨hunits, hfinite⟩ := units_sum_replicate hc n h
  have hcount := Positive.natCast hpos
  rw [Statistics.mean, List.length_replicate]
  generalize sum (List.replicate n c) = s at hunits hfinite
  by_cases hzero : c.isZero = true
  · rw [units_eq_zero_iff.2 hzero, Int.mul_zero, units_eq_zero_iff] at hunits
    have hmean := isZero_div hunits hcount.not_isZero hcount.not_isNaN
    rw [units_eq_zero_iff.2 hzero, units_eq_zero_iff]
    exact ⟨hmean, isFinite_of_isZero hmean⟩
  · have hne : ¬ s.isZero = true := by
      rw [← units_eq_zero_iff, hunits, Int.mul_eq_zero, not_or, units_eq_zero_iff]
      exact ⟨by omega, hzero⟩
    have hsign : s.negative = c.negative := by
      rw [← decide_units_neg hne, ← decide_units_neg hzero, hunits]
      simp [Int.mul_neg_iff, hpos]
    have hmagnitude : magnitudeUnits s.magnitude = magnitudeUnits c.magnitude * n := by
      rw [← natAbs_units, hunits, Int.natAbs_mul, Int.natAbs_natCast, natAbs_units, Nat.mul_comm]
    have hmean : s / (n : Number) = c := by
      rw [div_of_isFinite hfinite (isFinite_natCast hn) hcount.not_isZero,
        magnitudeUnits_natCast hn, hmagnitude, Nat.mul_assoc, ofRatio]
      simp only [nearestMagnitude_units_mul hc (Nat.mul_pos hpos oneUnits_pos),
        hsign, hcount.negative_eq, Bool.bne_false]
    rw [hmean]
    exact ⟨rfl, hc⟩

theorem isZero_residue (hpos : 0 < n) (hn : n < 2 ^ 53) (hc : c.isFinite = true)
    (h : ∀ k ≤ n, ∃ y : Number, y.isFinite = true ∧ y.units = k * c.units) :
    (residue n c * residue n c).isZero = true := by
  obtain ⟨hunits, hfinite⟩ := units_mean_replicate hpos hn hc h
  have hzero := isZero_sub hc hfinite hunits.symm
  exact isZero_mul_left hzero (isFinite_of_isZero hzero)

end Exact

section Decided

variable {n : Nat} {c : Number}

theorem isZero_residue_one (hc : c.isFinite = true) :
    (residue 1 c * residue 1 c).isZero = true := by
  refine isZero_residue Nat.one_pos (by decide) hc fun k hk => ?_
  obtain rfl | rfl : k = 0 ∨ k = 1 := by omega
  · exact ⟨0, isFinite_of_isZero rfl, by rw [Int.natCast_zero, Int.zero_mul]; rfl⟩
  · exact ⟨c, hc, (Int.one_mul _).symm⟩

/-- A single sample has no deviation. -/
theorem exists_eq_add_two (hpos : 0 < n) (hne : ¬ (residue n c * residue n c).isZero = true)
    (hfinite : (residue n c).isFinite = true) : ∃ k, n = k + 2 := by
  refine Nat.exists_eq_add_of_le' (Nat.lt_of_le_of_ne hpos ?_)
  rintro rfl
  exact hne (isZero_residue_one (isFinite_of_sub hfinite).1)

theorem isZero_residue_of_forall (hpos : 0 < n) (hn : n < 2 ^ 53)
    (hfinite : (squares (List.replicate n c)).isFinite = true)
    (h : ∀ target, of? target (List.replicate n c) = none) :
    (residue n c * residue n c).isZero = true := by
  by_contra hne
  have hresidue := isFinite_residue_of_squares hpos hfinite
  obtain ⟨k, rfl⟩ := exists_eq_add_two hpos hne hresidue
  exact of?_contrast_ne_none hn hne hfinite (h _)

theorem isZero_residue_of_forall_target (hpos : 0 < n) (hn : n < 2 ^ 53)
    (hfinite : (residue n c).isFinite = true)
    (h : ∀ samples, of? (List.replicate n c) samples = none) :
    (residue n c * residue n c).isZero = true := by
  by_contra hne
  obtain ⟨k, rfl⟩ := exists_eq_add_two hpos hne hfinite
  exact of?_replicate_contrast_ne_none hn hne hfinite (h _)

end Decided

/-- Equal samples have no regression where the square of their residue comes out as zero or is too
large, neither as the variable nor as the target, and such cells are not ranked. Otherwise they have
one. The residue is zero where their multiples are numbers, so that the sum is exact. -/
theorem of?_replicate_eq_none_iff (n : Nat) (c : Number) :
    ((residue n c * residue n c).isZero = true ∨ ¬ (squares (List.replicate n c)).isFinite = true →
      (∀ target, of? target (List.replicate n c) = none) ∧
      ∀ target before after name limit,
        Sensitivity.rank target (before ++ (name, List.replicate n c) :: after) limit =
          Sensitivity.rank target (before ++ after) limit) ∧
    ((residue n c * residue n c).isZero = true ∨ ¬ (residue n c).isFinite = true →
      (∀ samples, of? (List.replicate n c) samples = none) ∧
      ∀ candidates limit, Sensitivity.rank (List.replicate n c) candidates limit = []) ∧
    (0 < n → n < 2 ^ 53 →
      ((∀ target, of? target (List.replicate n c) = none) →
        (residue n c * residue n c).isZero = true ∨
          ¬ (squares (List.replicate n c)).isFinite = true) ∧
      ((∀ samples, of? (List.replicate n c) samples = none) →
        (residue n c * residue n c).isZero = true ∨ ¬ (residue n c).isFinite = true) ∧
      (c.isFinite = true → (∀ k ≤ n, ∃ y : Number, y.isFinite = true ∧ y.units = k * c.units) →
        (residue n c * residue n c).isZero = true)) := by
  refine ⟨fun h => ?_, fun h => ?_, fun hpos hn =>
    ⟨fun h => ?_, fun h => ?_, isZero_residue hpos hn⟩⟩
  · have hnone (target : List Number) : of? target (List.replicate n c) = none :=
      of?_replicate_eq_none h
    exact ⟨hnone, fun target => Sensitivity.rank_skip (hnone target)⟩
  · have hnone (samples : List Number) : of? (List.replicate n c) samples = none :=
      of?_replicate_target_eq_none h
    exact ⟨hnone, fun _ => Sensitivity.rank_eq_nil hnone⟩
  · by_cases hfinite : (squares (List.replicate n c)).isFinite = true
    · exact .inl (isZero_residue_of_forall hpos hn hfinite h)
    · exact .inr hfinite
  · by_cases hfinite : (residue n c).isFinite = true
    · exact .inl (isZero_residue_of_forall_target hpos hn hfinite h)
    · exact .inr hfinite

theorem of?_replicate_eq_none_iff_tenths :
    (residue 2 0.1 * residue 2 0.1).isZero = true ∧
    (∀ target, of? target (List.replicate 2 0.1) = none) ∧
    ¬ ((residue 3 0.1 * residue 3 0.1).isZero = true ∨
      ¬ (squares (List.replicate 3 0.1)).isFinite = true) ∧
    ¬ ∀ target, of? target (List.replicate 3 0.1) = none := by
  have hzero : (residue 2 0.1 * residue 2 0.1).isZero = true := by decide +kernel
  have hvaries : ¬ ((residue 3 0.1 * residue 3 0.1).isZero = true ∨
      ¬ (squares (List.replicate 3 0.1)).isFinite = true) := by decide +kernel
  exact ⟨hzero, ((of?_replicate_eq_none_iff 2 0.1).1 (.inl hzero)).1, hvaries,
    fun h => hvaries (((of?_replicate_eq_none_iff 3 0.1).2.2 (by decide) (by decide)).1 h)⟩

/-- Three times a tenth is not three tenths, so three tenths have a mean that is not one of them. -/
theorem of?_three_tenths : Number.isFinite 0.1 = true ∧
    of? [1, 2, 4] (List.replicate 3 0.1) ≠ none ∧ of? (List.replicate 3 0.1) [1, 2, 4] ≠ none ∧
    Sensitivity.rank [1, 2, 4] [("tenth", List.replicate 3 0.1)] 1 ≠ [] ∧
    Sensitivity.rank (List.replicate 3 0.1) [("other", [1, 2, 4])] 1 ≠ [] := by
  decide +kernel

end Regression

end EstimateSheet
