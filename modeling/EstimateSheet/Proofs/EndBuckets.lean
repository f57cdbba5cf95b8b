import EstimateSheet.Proofs.BucketCounts
import EstimateSheet.Proofs.SignedRounding

/-!
# The first and the last bucket

The least samples are in the first bucket, and so are samples that are all equal. The greatest ones
are in the last bucket if their distance from the least reaches it, counted in the width of a bucket
(`Histogram.Ends`). Both the distance and the width are rounded. Rounding a width up takes at most
half a step, so the last bucket is reached if the span is finite and not too small for so many
buckets (`Number.pred_mul_le`). It is not if the span overflows, because then the width does so too
and the distance counted in it has no value, and not if the width comes out as zero.
-/

namespace EstimateSheet

namespace Number

section Parts

variable {count parts : Nat}

/-- The width of one of several parts, rounded, is at most a little more than what all parts but one
need. -/
theorem pred_mul_le (hpos : 0 < parts) (hlt : parts < 2 ^ 53)
    (hfinite : nearestMagnitude count parts < infiniteMagnitude)
    (hwide : parts * parts ≤ 2 * count) :
    (parts - 1) * magnitudeUnits (nearestMagnitude count parts) ≤ count := by
  obtain ⟨below, hle, hcount, ⟨heq, -⟩ | ⟨heq, hup⟩⟩ := nearestMagnitude_cases hpos count
  · obtain rfl : nearestMagnitude count parts = below := by omega
    rw [Nat.mul_comm]
    exact (Nat.mul_le_mul_left _ (Nat.sub_le parts 1)).trans hle
  · have habove : nearestMagnitude count parts = below + 1 := by omega
    have hmono := magnitudeUnits_lt_succ below
    have hgap : (magnitudeUnits (below + 1) - magnitudeUnits below) * parts ≤
        2 * magnitudeUnits (below + 1) := by
      rcases magnitudeUnits_succ_eq_or below with hone | hnear
      · have hparts : parts < 2 * magnitudeUnits (below + 1) := by
          refine Nat.lt_of_mul_lt_mul_right (a := parts) (hwide.trans_lt ?_)
          rw [Nat.mul_assoc]
          omega
        rw [hone, Nat.add_sub_cancel_left, Nat.one_mul, ← hone]
        exact hparts.le
      · refine (Nat.mul_le_mul_left _ hlt.le).trans ?_
        omega
    rw [habove]
    generalize magnitudeUnits (below + 1) = above at hgap hup hmono
    rw [Nat.sub_mul] at hgap ⊢
    rw [Nat.add_mul] at hup
    have hcomm := Nat.mul_comm parts above
    omega

/-- A width that does not vanish is at least half of what is needed. -/
theorem lt_two_mul_nearestMagnitude (hpos : 0 < parts)
    (hfinite : nearestMagnitude count parts < infiniteMagnitude)
    (hne : nearestMagnitude count parts ≠ 0) :
    count < 2 * parts * magnitudeUnits (nearestMagnitude count parts) := by
  obtain ⟨below, -, hcount, hcases⟩ := nearestMagnitude_cases hpos count
  refine hcount.trans_le ?_
  rw [Nat.mul_comm 2 parts, Nat.mul_assoc, Nat.mul_comm]
  refine Nat.mul_le_mul_left _ ?_
  have hgap := magnitudeUnits_succ_eq_or below
  rcases hcases with ⟨heq, -⟩ | ⟨heq, -⟩
  · obtain rfl : nearestMagnitude count parts = below := by omega
    have hone := le_magnitudeUnits (nearestMagnitude count parts)
    omega
  · have habove : nearestMagnitude count parts = below + 1 := by omega
    rw [habove]
    omega

/-- Less than half a unit vanishes. -/
theorem nearestMagnitude_eq_zero (h : 2 * count < parts) : nearestMagnitude count parts = 0 := by
  obtain ⟨below, hle, -, hcases⟩ := nearestMagnitude_cases (Nat.zero_lt_of_lt h) count
  have hzero : magnitudeUnits below = 0 := by
    by_contra hne
    have hmul := Nat.le_mul_of_pos_left parts (Nat.pos_of_ne_zero hne)
    omega
  obtain rfl := magnitudeUnits_eq_zero_iff.1 hzero
  rcases hcases with ⟨heq, -⟩ | ⟨-, hup⟩
  · omega
  · have hone : magnitudeUnits (0 + 1) = 1 := rfl
    rw [hzero, hone] at hup
    omega

end Parts

variable {x y : Number}

theorem units_eq_of_eq (h : x.eq y = true) : x.units = y.units := by
  have hplace := (eq_iff.1 h).2.2
  refine Int.le_antisymm (Int.not_lt.1 fun hlt => ?_) (Int.not_lt.1 fun hlt => ?_)
  · exact (units_lt_units_iff.1 hlt).ne hplace.symm
  · exact (units_lt_units_iff.1 hlt).ne hplace

theorem Positive.sub (hx : x.isFinite = true) (hy : y.isFinite = true)
    (h : y.place < x.place) : (x - y).Positive := by
  have hunits := units_lt_units_iff.2 h
  rw [sub_of_isFinite hx hy, ofUnits, if_neg (by omega), decide_eq_false (by omega)]
  exact Positive.ofRatio Nat.one_pos (by omega)

theorem Positive.zero_lt (hx : x.Positive) : Number.lt 0 x = true := by
  have hzero : (0 : Number).place = 0 := rfl
  have hpos := hx.magnitude_pos
  refine lt_iff.2 ⟨isNaN_eq_false (isFinite_of_isZero rfl), Bool.eq_false_iff.2 hx.not_isNaN, ?_⟩
  rw [hzero, place_eq_magnitude hx.negative_eq]
  omega

theorem le_iff_magnitude_le (hx : x.negative = false) (hy : y.negative = false)
    (hnan : y.isNaN = false) : x.le y = true ↔ x.magnitude ≤ y.magnitude := by
  have hnumber : ¬ infiniteMagnitude < y.magnitude := of_decide_eq_false hnan
  rw [le_iff, place_eq_magnitude hx, place_eq_magnitude hy, isNaN, decide_eq_false_iff_not]
  exact ⟨fun h => by omega, fun h => ⟨by omega, hnan, by omega⟩⟩

theorem natCast_le_iff {n : Nat} (hn : n < 2 ^ 53) (hfinite : x.isFinite = true)
    (hx : x.negative = false) :
    Number.le n x = true ↔ n ≤ magnitudeUnits x.magnitude / oneUnits := by
  rw [le_iff_magnitude_le rfl hx (isNaN_eq_false hfinite), Nat.le_div_iff_mul_le oneUnits_pos,
    ← magnitudeUnits_natCast hn, magnitudeUnits_strictMono.le_iff_le]

section Width

variable {span : Number} {buckets : Nat}

theorem Positive.div_natCast_eq (hspan : span.Positive) (hfinite : span.isFinite = true)
    (hpos : 0 < buckets) (hlt : buckets < 2 ^ 53) : span / (buckets : Number) =
      Number.ofRatio false (magnitudeUnits span.magnitude) buckets := by
  rw [hspan.div_natCast_of_isFinite hpos hlt hfinite, Number.ofRatio, Number.ofRatio]
  simp only [nearestMagnitude_mul _ _ oneUnits_pos]

variable (hspan : span.Positive) (hfinite : span.isFinite = true) (hpos : 0 < buckets)
  (hlt : buckets < 2 ^ 52)

include hspan hfinite hpos hlt

/-- Counted in the width of a bucket, a span is rounded once more. It comes to no more than twice
the number of buckets. -/
theorem Positive.div_width (hne : ¬ (span / (buckets : Number)).isZero = true) :
    span / (span / (buckets : Number)) = Number.ofRatio false
      (magnitudeUnits span.magnitude * oneUnits)
      (magnitudeUnits (span / (buckets : Number)).magnitude) ∧
    (span / (span / (buckets : Number))).magnitude ≤ ((2 * buckets : Nat) : Number).magnitude := by
  have hwidth := hspan.div_natCast_eq hfinite hpos (by omega)
  have hle := hspan.div_natCast_le hpos (by omega) hfinite
  have hwidthfinite := isFinite_of_magnitude_le hle hfinite
  have heq := div_of_isFinite hfinite hwidthfinite hne
  generalize span / (buckets : Number) = width at hne hwidth hwidthfinite heq ⊢
  have hmagnitude : width.magnitude =
      nearestMagnitude (magnitudeUnits span.magnitude) buckets := congrArg magnitude hwidth
  have hcount := lt_two_mul_nearestMagnitude hpos (hmagnitude ▸ isFinite_iff.1 hwidthfinite)
    (hmagnitude ▸ fun hzero => hne (beq_iff_eq.2 hzero))
  have hsign : width.negative = false := congrArg negative hwidth
  rw [← hmagnitude] at hcount
  rw [hspan.negative_eq, hsign, bne_self_eq_false] at heq
  refine ⟨heq, ?_⟩
  rw [heq]
  refine nearestMagnitude_le (magnitudeUnits_pos hne) ?_
  rw [magnitudeUnits_natCast (by omega), Nat.mul_right_comm]
  exact Nat.mul_le_mul_right _ hcount.le

theorem Positive.pred_le_iff (hne : ¬ (span / (buckets : Number)).isZero = true) :
    buckets - 1 ≤ (span / (span / (buckets : Number))).floor.toNat ↔
      Number.le ((buckets - 1 : Nat) : Number) (span / (span / (buckets : Number))) = true := by
  obtain ⟨heq, hle⟩ := hspan.div_width hfinite hpos hlt hne
  have hcount : 2 * buckets < 2 ^ 53 := by omega
  have hquotient := isFinite_of_magnitude_le hle (isFinite_natCast hcount)
  have hsign : (span / (span / (buckets : Number))).negative = false := congrArg negative heq
  have hunits := magnitudeUnits_strictMono.monotone hle
  rw [magnitudeUnits_natCast hcount] at hunits
  have hwhole := Nat.div_le_of_le_mul (hunits.trans_eq (Nat.mul_comm ..))
  rw [toNat_floor hquotient hsign (hwhole.trans_lt hcount),
    natCast_le_iff (by omega) hquotient hsign]

/-- Where there are enough units for so many buckets, the span reaches the last one. -/
theorem Positive.pred_le_of_wide (hne : ¬ (span / (buckets : Number)).isZero = true)
    (hwide : buckets * buckets ≤ 2 * magnitudeUnits span.magnitude) :
    Number.le ((buckets - 1 : Nat) : Number) (span / (span / (buckets : Number))) = true := by
  obtain ⟨heq, hle⟩ := hspan.div_width hfinite hpos hlt hne
  have hquotient := isFinite_of_magnitude_le hle (isFinite_natCast (by omega))
  have hwidth := hspan.div_natCast_le hpos (by omega) hfinite
  refine (le_iff_magnitude_le rfl (congrArg negative heq) (isNaN_eq_false hquotient)).2 ?_
  have hmagnitude : (span / (buckets : Number)).magnitude =
      nearestMagnitude (magnitudeUnits span.magnitude) buckets :=
    congrArg magnitude (hspan.div_natCast_eq hfinite hpos (by omega))
  have hpred := pred_mul_le hpos (by omega)
    (hmagnitude ▸ hwidth.trans_lt (isFinite_iff.1 hfinite)) hwide
  rw [← hmagnitude] at hpred
  rw [heq]
  refine le_nearestMagnitude (magnitudeUnits_pos hne) ?_ ?_
  · exact (isFinite_iff.1 (isFinite_natCast (by omega))).le
  · rw [magnitudeUnits_natCast (by omega), Nat.mul_right_comm]
    exact Nat.mul_le_mul_right _ hpred

/-- Such a width does not vanish. -/
theorem Positive.not_isZero_width (htwo : 2 ≤ buckets)
    (hwide : buckets * buckets ≤ 2 * magnitudeUnits span.magnitude) :
    ¬ (span / (buckets : Number)).isZero = true := by
  intro hzero
  rw [hspan.div_natCast_eq hfinite hpos (by omega)] at hzero
  have hone : 1 ≤ nearestMagnitude (magnitudeUnits span.magnitude) buckets := by
    refine le_nearestMagnitude hpos (by decide) ?_
    have hunit : magnitudeUnits 1 = 1 := rfl
    have htimes := Nat.mul_le_mul_right buckets htwo
    rw [hunit]
    omega
  have hmagnitude : nearestMagnitude (magnitudeUnits span.magnitude) buckets = 0 :=
    beq_iff_eq.1 hzero
  omega

/-- A span that is less than half a unit for each bucket gives a width that vanishes. -/
theorem Positive.isZero_width (hnarrow : 2 * magnitudeUnits span.magnitude < buckets) :
    (span / (buckets : Number)).isZero = true := by
  rw [hspan.div_natCast_eq hfinite hpos (by omega)]
  exact beq_iff_eq.2 (nearestMagnitude_eq_zero hnarrow)

end Width

end Number

open Number

namespace Histogram

section Spans

variable {least width span distance distance' x : Number} {buckets : Nat}

/-- The bucket of the samples at a distance from the least ones. -/
def bucketAt (width : Number) (buckets : Nat) (distance : Number) : Nat :=
  if Number.lt 0 width then min ((distance / width).floor.toNat) (buckets - 1) else 0

theorem bucket_eq_bucketAt (least width : Number) (buckets : Nat) (x : Number) :
    bucket least width buckets x = bucketAt width buckets (x - least) := rfl

theorem bucketAt_congr (h : Coincide distance distance') :
    bucketAt width buckets distance = bucketAt width buckets distance' := by
  unfold bucketAt
  rw [(h.div width).toNat_floor_eq]

theorem bucketAt_of_isZero_width (h : width.isZero = true) :
    bucketAt width buckets distance = 0 :=
  if_neg (not_lt_of_isZero h)

/-- At no distance there is the first bucket. -/
theorem bucketAt_of_isZero (h : distance.isZero = true) : bucketAt width buckets distance = 0 := by
  unfold bucketAt
  by_cases hlt : Number.lt 0 width = true
  · have hwidth : ¬ width.isZero = true := fun hzero => not_lt_of_isZero hzero hlt
    have hnan : ¬ width.isNaN = true := by simp [(lt_iff.1 hlt).2.1]
    rw [if_pos hlt, (toNat_floor_of_isZero_or_isNaN (.inl (isZero_div h hwidth hnan))).1,
      Nat.zero_min]
  · exact if_neg hlt

/-- A span that overflows, counted in a width that does so too, has no value. -/
theorem bucketAt_of_isInfinite (hspan : span.Positive) (hinfinite : span.isInfinite = true)
    (hlt : buckets < 2 ^ 52) :
    span / (span / (buckets : Number)) = undefined ∧
      bucketAt (span / (buckets : Number)) buckets span = 0 := by
  have hquotient : infinite false / infinite false = undefined := by decide +kernel
  have hwhole := (toNat_floor_of_isZero_or_isNaN (x := undefined) (.inr (by decide))).1
  rw [eq_infinite hinfinite, hspan.negative_eq, infinite_div_natCast (by omega), bucketAt,
    if_pos Positive.infinite.zero_lt, hquotient, hwhole, Nat.zero_min]
  exact ⟨rfl, rfl⟩

variable (hspan : span.Positive) (hpos : 0 < buckets) (hlt : buckets < 2 ^ 52)

include hspan hpos hlt

/-- The last bucket is reached if the rounded quotient reaches it. -/
theorem bucketAt_span_iff : bucketAt (span / (buckets : Number)) buckets span = buckets - 1 ↔
    buckets = 1 ∨ Number.lt 0 (span / (buckets : Number)) = true ∧
      Number.le ((buckets - 1 : Nat) : Number) (span / (span / (buckets : Number))) = true := by
  rcases hspan.isFinite_or_isInfinite with hfinite | hinfinite
  · unfold bucketAt
    by_cases hwidth : Number.lt 0 (span / (buckets : Number)) = true
    · have hreach := hspan.pred_le_iff hfinite hpos hlt fun hzero => not_lt_of_isZero hzero hwidth
      rw [if_pos hwidth]
      refine ⟨fun h => .inr ⟨hwidth, hreach.1 (by omega)⟩, ?_⟩
      rintro (hone | ⟨-, hle⟩)
      · omega
      · have hle := hreach.2 hle
        omega
    · rw [if_neg hwidth]
      refine ⟨fun h => .inl (by omega), ?_⟩
      rintro (hone | ⟨hlt, -⟩)
      · omega
      · exact absurd hlt hwidth
  · obtain ⟨hquotient, hbucket⟩ := bucketAt_of_isInfinite hspan hinfinite hlt
    rw [hbucket, hquotient]
    refine ⟨fun h => .inl (by omega), ?_⟩
    rintro (hone | ⟨-, hle⟩)
    · omega
    · exact absurd (le_iff.1 hle).2.1 (by decide)

theorem bucketAt_span_of_wide (hfinite : span.isFinite = true)
    (hwide : buckets * buckets ≤ 2 * magnitudeUnits span.magnitude) :
    bucketAt (span / (buckets : Number)) buckets span = buckets - 1 := by
  rw [bucketAt_span_iff hspan hpos hlt]
  by_cases hone : buckets = 1
  · exact .inl hone
  · have hne := hspan.not_isZero_width hfinite hpos hlt (by omega) hwide
    have hwidth : (span / (buckets : Number)).Positive := by
      rw [hspan.div_natCast_eq hfinite hpos (by omega)] at hne ⊢
      exact ⟨rfl, Nat.pos_of_ne_zero fun hzero => hne (beq_iff_eq.2 hzero), Nat.min_le_left _ _⟩
    exact .inr ⟨hwidth.zero_lt, hspan.pred_le_of_wide hfinite hpos hlt hne hwide⟩

theorem bucketAt_span_of_narrow
    (hnarrow : span.isFinite = true → 2 * magnitudeUnits span.magnitude < buckets) :
    bucketAt (span / (buckets : Number)) buckets span = 0 := by
  rcases hspan.isFinite_or_isInfinite with hfinite | hinfinite
  · exact bucketAt_of_isZero_width (hspan.isZero_width hfinite hpos hlt (hnarrow hfinite))
  · exact (bucketAt_of_isInfinite hspan hinfinite hlt).2

end Spans

section Samples

variable {samples : List Number} {buckets : Nat} {x : Number}

/-- Where a histogram has the samples at its ends. Its span is the distance of the greatest samples
from the least ones. -/
structure Ends (histogram : Histogram) (samples : List Number) (buckets : Nat) : Prop where
  least : ∀ x, x.LeastIn samples → bucket histogram.least histogram.width buckets x = 0
  equal : (∀ x ∈ samples, ∀ y ∈ samples, x.eq y = true) →
    ∀ x ∈ samples, bucket histogram.least histogram.width buckets x = 0
  greatest_iff : ∀ x, x.GreatestIn samples →
    (bucket histogram.least histogram.width buckets x = buckets - 1 ↔
      buckets = 1 ∨ Number.lt 0 histogram.width = true ∧
        Number.le ((buckets - 1 : Nat) : Number)
          ((histogram.greatest - histogram.least) / histogram.width) = true)
  greatest_of_wide : ∀ x, x.GreatestIn samples →
    (histogram.greatest - histogram.least).isFinite = true →
    (buckets * buckets : Nat) ≤ 2 * (histogram.greatest - histogram.least).units →
    bucket histogram.least histogram.width buckets x = buckets - 1
  greatest_of_narrow : ∀ x, x.GreatestIn samples →
    ((histogram.greatest - histogram.least).isFinite = true →
      2 * (histogram.greatest - histogram.least).units < buckets) →
    bucket histogram.least histogram.width buckets x = 0

variable (hne : samples ≠ []) (hfinite : ∀ x ∈ samples, x.isFinite = true)

include hne hfinite

theorem span_cases : (greatestOf samples - leastOf samples).isZero = true ∨
    (greatestOf samples - leastOf samples).Positive := by
  have hnumber : ∀ x ∈ samples, x.isNaN = false := fun x hx => isNaN_eq_false (hfinite x hx)
  have hleast := leastIn_leastOf hne hnumber
  have hgreatest := greatestIn_greatestOf hne hnumber
  have hx := hfinite _ hgreatest.mem
  have hy := hfinite _ hleast.mem
  rcases Int.lt_or_eq_of_le (le_iff.1 (hleast.le _ hgreatest.mem)).2.2 with hlt | heq
  · exact .inr (Positive.sub hx hy hlt)
  · exact .inl (isZero_sub hx hy (coincide_of_place_eq heq).units_eq.symm)

theorem isZero_sub_leastOf (hx : x.LeastIn samples) : (x - leastOf samples).isZero = true := by
  have hleast := leastIn_leastOf hne fun x hx => isNaN_eq_false (hfinite x hx)
  exact isZero_sub (hfinite _ hx.mem) (hfinite _ hleast.mem) (units_eq_of_eq (hx.eq hleast))

theorem coincide_sub_leastOf (hx : x.GreatestIn samples) :
    Coincide (x - leastOf samples) (greatestOf samples - leastOf samples) := by
  have hgreatest := greatestIn_greatestOf hne fun x hx => isNaN_eq_false (hfinite x hx)
  exact (coincide_of_place_eq (eq_iff.1 (hx.eq hgreatest)).2.2).sub (.refl _)

theorem bucket_greatest (hx : x.GreatestIn samples) (width : Number) (buckets : Nat) :
    bucket (leastOf samples) width buckets x =
      bucketAt width buckets (greatestOf samples - leastOf samples) :=
  (bucket_eq_bucketAt ..).trans (bucketAt_congr (coincide_sub_leastOf hne hfinite hx))

omit hne hfinite in
theorem isZero_widthOf (hpos : 0 < buckets)
    (hspan : (greatestOf samples - leastOf samples).isZero = true) :
    (widthOf samples buckets).isZero = true := by
  have hcount : (buckets : Number).Positive := Positive.natCast hpos
  exact isZero_div hspan hcount.not_isZero hcount.not_isNaN

theorem isZero_widthOf_of_equal (hpos : 0 < buckets)
    (hequal : ∀ x ∈ samples, ∀ y ∈ samples, x.eq y = true) :
    (widthOf samples buckets).isZero = true := by
  have hnumber : ∀ x ∈ samples, x.isNaN = false := fun x hx => isNaN_eq_false (hfinite x hx)
  have hleast := (leastIn_leastOf hne hnumber).mem
  have hgreatest := (greatestIn_greatestOf hne hnumber).mem
  exact isZero_widthOf hpos (isZero_sub (hfinite _ hgreatest) (hfinite _ hleast)
    (units_eq_of_eq (hequal _ hgreatest _ hleast)))

theorem ends (hpos : 0 < buckets) (hlt : buckets < 2 ^ 52) (counts : List Nat) :
    Ends ⟨leastOf samples, greatestOf samples, widthOf samples buckets, counts⟩ samples
      buckets where
  least x hx := (bucket_eq_bucketAt ..).trans
    (bucketAt_of_isZero (isZero_sub_leastOf hne hfinite hx))
  equal hequal x hx := (bucket_eq_bucketAt ..).trans
    (bucketAt_of_isZero_width (isZero_widthOf_of_equal hne hfinite hpos hequal))
  greatest_iff x hx := by
    rw [bucket_greatest hne hfinite hx]
    rcases span_cases hne hfinite with hspan | hspan
    · have hwidth := isZero_widthOf hpos hspan
      rw [bucketAt_of_isZero_width hwidth]
      refine ⟨fun h => .inl (by omega), ?_⟩
      rintro (hone | ⟨hlt, -⟩)
      · omega
      · exact absurd hlt (not_lt_of_isZero hwidth)
    · exact bucketAt_span_iff hspan hpos hlt
  greatest_of_wide x hx hspanfinite hwide := by
    rw [bucket_greatest hne hfinite hx]
    rcases span_cases hne hfinite with hspan | hspan
    · have hsquare := Nat.mul_pos hpos hpos
      rw [units_eq_zero_iff.2 hspan] at hwide
      omega
    · refine bucketAt_span_of_wide hspan hpos hlt hspanfinite ?_
      rw [units_eq_magnitudeUnits hspan.negative_eq] at hwide
      exact_mod_cast hwide
  greatest_of_narrow x hx hnarrow := by
    rw [bucket_greatest hne hfinite hx]
    rcases span_cases hne hfinite with hspan | hspan
    · exact bucketAt_of_isZero hspan
    · refine bucketAt_span_of_narrow hspan hpos hlt fun hspanfinite => ?_
      have hnarrow := hnarrow hspanfinite
      rw [units_eq_magnitudeUnits hspan.negative_eq] at hnarrow
      exact_mod_cast hnarrow

/-- Of finite samples the least ones are counted in the first bucket, and all are if they are equal.
The greatest ones are counted in the last bucket if the span does not overflow and half the square
of the number of buckets is not more than it has units. They are counted in the first one if it does
overflow, or if it has less than half a unit for each bucket. -/
theorem ofSamples?_ends (hpos : 0 < buckets) (hlt : buckets < 2 ^ 32) : ∃ histogram,
    ofSamples? samples buckets = some histogram ∧
      (∀ i < buckets, histogram.counts[i]? = some (samples.countP fun x =>
        bucket histogram.least histogram.width buckets x == i)) ∧
      Ends histogram samples buckets :=
  ⟨_, ofSamples?_eq hne hpos, fun _ hi => getElem?_tally_map _ _ hi,
    ends hne hfinite hpos (by omega) _⟩

omit hne hfinite in
theorem ofSamples?_ends_thirds : ∃ histogram, ofSamples? [4, 0, 1] 3 = some histogram ∧
    histogram.counts = [2, 0, 1] ∧ bucket histogram.least histogram.width 3 0 = 0 ∧
      bucket histogram.least histogram.width 3 4 = 3 - 1 := by
  have hfinite : ∀ x ∈ ([4, 0, 1] : List Number), x.isFinite = true := by decide +kernel
  obtain ⟨histogram, hsome, -, hends⟩ := @ofSamples?_ends [4, 0, 1] 3
    (List.cons_ne_nil _ _) hfinite (by decide) (by decide)
  obtain rfl := Option.some_inj.1 (hsome.symm.trans (ofSamples?_eq (List.cons_ne_nil _ _)
    (by decide)))
  refine ⟨_, hsome, by decide +kernel, hends.least 0 ⟨by decide +kernel, by decide +kernel⟩, ?_⟩
  exact hends.greatest_of_wide 4 ⟨by decide +kernel, by decide +kernel⟩ (by decide +kernel)
    (by decide +kernel)

omit hne hfinite in
/-- Two different samples are both in the first bucket: a unit is too little for three buckets, and
the largest numbers of both signs are too far from each other. -/
theorem ofSamples?_ends_lost :
    let unit : Number := ⟨false, 1, by decide⟩
    let largest : Number := ⟨false, infiniteMagnitude - 1, by decide⟩
    ((∀ x ∈ [0, unit], x.isFinite = true) ∧ unit.GreatestIn [0, unit] ∧ ¬ Number.eq 0 unit = true ∧
      ∃ histogram, ofSamples? [0, unit] 3 = some histogram ∧ histogram.counts = [2, 0, 0] ∧
        bucket histogram.least histogram.width 3 unit ≠ 3 - 1) ∧
    (∀ x ∈ [-largest, largest], x.isFinite = true) ∧ largest.GreatestIn [-largest, largest] ∧
      ¬ (-largest).eq largest = true ∧
      ∃ histogram, ofSamples? [-largest, largest] 2 = some histogram ∧
        histogram.counts = [2, 0] ∧
        bucket histogram.least histogram.width 2 largest ≠ 2 - 1 := by
  intro unit largest
  refine ⟨⟨by decide +kernel, ⟨by decide +kernel, by decide +kernel⟩, by decide +kernel, _,
    ofSamples?_eq (List.cons_ne_nil _ _) (by decide), by decide +kernel, by decide +kernel⟩,
    by decide +kernel, ⟨by decide +kernel, by decide +kernel⟩, by decide +kernel, _,
    ofSamples?_eq (List.cons_ne_nil _ _) (by decide), by decide +kernel, by decide +kernel⟩

end Samples

end Histogram

end EstimateSheet
