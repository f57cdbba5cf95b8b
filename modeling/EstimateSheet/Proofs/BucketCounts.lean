import EstimateSheet.Proofs.Extrema
import Mathlib.Algebra.BigOperators.Group.Finset.Basic

/-!
# The counts of a histogram

Every sample has a bucket, whatever number or not-a-number it is (`Histogram.bucket_lt`), and a
tally counts each bucket once for every sample in it (`Histogram.tally_eq`). So no sample is lost.
In another order of the samples the span can differ in the sign of a zero, but not more
(`Histogram.coincide_leastOf`). Numbers that differ in this only (`Number.Coincide`) have such
differences and quotients, and the same whole parts, so the buckets stay the same.
-/

namespace EstimateSheet

namespace Number

variable {x x' y y' : Number}

/-- Equal, or zeros. -/
def Coincide (x y : Number) : Prop := x = y ∨ x.isZero = true ∧ y.isZero = true

theorem Coincide.refl (x : Number) : Coincide x x := .inl rfl

theorem Coincide.eq (h : Coincide x y) (hx : ¬ x.isZero = true) : x = y :=
  h.resolve_right fun hzero => hx hzero.1

theorem Coincide.eq_of_not_isFinite (h : Coincide x y) (hx : ¬ x.isFinite = true) : x = y :=
  h.eq fun hzero => hx (isFinite_of_isZero hzero)

theorem Coincide.isFinite (h : Coincide x y) (hx : x.isFinite = true) : y.isFinite = true := by
  rcases h with rfl | ⟨-, hy⟩
  · exact hx
  · exact isFinite_of_isZero hy

theorem Coincide.units_eq (h : Coincide x y) : x.units = y.units := by
  rcases h with rfl | ⟨hx, hy⟩
  · rfl
  · rw [units_eq_zero_iff.2 hx, units_eq_zero_iff.2 hy]

theorem coincide_of_place_eq (h : x.place = y.place) : Coincide x y := by
  obtain ⟨negative, magnitude, hlt⟩ := x
  obtain ⟨negative', magnitude', hlt'⟩ := y
  have hcases : negative = negative' ∧ magnitude = magnitude' ∨
      magnitude = 0 ∧ magnitude' = 0 := by
    cases negative <;> cases negative' <;> simp [place] at h ⊢ <;> omega
  rcases hcases with ⟨rfl, rfl⟩ | ⟨rfl, rfl⟩
  · exact .inl rfl
  · exact .inr ⟨rfl, rfl⟩

/-- The sign that a zero would have matters to a zero only. -/
theorem coincide_ofUnits (count : Int) (negative negative' : Bool) :
    Coincide (ofUnits count negative) (ofUnits count negative') := by
  unfold ofUnits
  split_ifs
  · exact .inr ⟨rfl, rfl⟩
  · exact .inl rfl

section Operations

theorem sub_of_not_isFinite_left (hx : ¬ x.isFinite = true) (hy : y.isFinite = true) :
    x - y = x := by
  change passNaN x y (sumOf x (-y)) = x
  have hneg : (-y).isInfinite = false :=
    Bool.eq_false_iff.2 fun h => not_isFinite_of_isInfinite (x := y) h hy
  by_cases hnan : x.isNaN = true
  · rw [passNaN, if_pos hnan]
  · have hinfinite : x.isInfinite = true := by
      by_contra hnot
      exact hx (isFinite_of_not hnan hnot)
    rw [passNaN, if_neg hnan, isNaN_eq_false hy, if_neg Bool.false_ne_true, sumOf,
      if_pos hinfinite, hneg, Bool.false_and, if_neg Bool.false_ne_true]

theorem sub_of_not_isFinite_right (hx : x.isFinite = true) (hy : ¬ y.isFinite = true) :
    x - y = if y.isNaN then y else -y := by
  change passNaN x y (sumOf x (-y)) = _
  rw [passNaN, isNaN_eq_false hx, if_neg Bool.false_ne_true]
  by_cases hnan : y.isNaN = true
  · rw [if_pos hnan, if_pos hnan]
  · have hinfinite : (-y).isInfinite = true := by
      by_contra hnot
      exact hy (isFinite_of_not hnan hnot)
    rw [if_neg hnan, if_neg hnan, sumOf, if_neg fun h => not_isFinite_of_isInfinite h hx,
      if_pos hinfinite]

theorem Coincide.sub (hx : Coincide x x') (hy : Coincide y y') : Coincide (x - y) (x' - y') := by
  by_cases hfinite : x.isFinite = true
  · by_cases hfinite' : y.isFinite = true
    · rw [sub_of_isFinite hfinite hfinite', sub_of_isFinite (hx.isFinite hfinite)
        (hy.isFinite hfinite'), hx.units_eq, hy.units_eq]
      exact coincide_ofUnits _ _ _
    · obtain rfl := hy.eq_of_not_isFinite hfinite'
      rw [sub_of_not_isFinite_right hfinite hfinite',
        sub_of_not_isFinite_right (hx.isFinite hfinite) hfinite']
      exact .refl _
  · obtain rfl := hx.eq_of_not_isFinite hfinite
    by_cases hfinite' : y.isFinite = true
    · rw [sub_of_not_isFinite_left hfinite hfinite',
        sub_of_not_isFinite_left hfinite (hy.isFinite hfinite')]
      exact .refl _
    · obtain rfl := hy.eq_of_not_isFinite hfinite'
      exact .refl _

theorem div_of_isNaN (hx : x.isFinite = true) (hy : y.isNaN = true) : x / y = y := by
  change passNaN x y _ = y
  rw [passNaN, isNaN_eq_false hx, if_neg Bool.false_ne_true, if_pos hy]

theorem zero_div_zero (hx : x.isZero = true) (hy : y.isZero = true) : x / y = undefined := by
  refine (passNaN_of_isFinite (isFinite_of_isZero hx) (isFinite_of_isZero hy)).trans ?_
  rw [if_neg fun h => not_isFinite_of_isInfinite h (isFinite_of_isZero hx),
    if_neg fun h => not_isFinite_of_isInfinite h (isFinite_of_isZero hy), if_pos hy, if_pos hx]

theorem Coincide.div (h : Coincide x x') (y : Number) : Coincide (x / y) (x' / y) := by
  rcases h with rfl | ⟨hx, hx'⟩
  · exact .refl _
  by_cases hnan : y.isNaN = true
  · rw [div_of_isNaN (isFinite_of_isZero hx) hnan, div_of_isNaN (isFinite_of_isZero hx') hnan]
    exact .refl _
  by_cases hy : y.isZero = true
  · rw [zero_div_zero hx hy, zero_div_zero hx' hy]
    exact .refl _
  · exact .inr ⟨isZero_div hx hy hnan, isZero_div hx' hy hnan⟩

theorem Coincide.toNat_floor_eq (h : Coincide x y) : x.floor.toNat = y.floor.toNat := by
  rcases h with rfl | ⟨hx, hy⟩
  · rfl
  · rw [toNat_of_isZero (isZero_floor hx), toNat_of_isZero (isZero_floor hy)]

theorem not_lt_of_isZero (hx : x.isZero = true) : ¬ Number.lt 0 x = true := by
  have hzero : (0 : Number).place = 0 := rfl
  have hplace : x.place = 0 := by
    unfold place
    split_ifs <;> simp [beq_iff_eq.1 hx]
  rw [lt_iff, hzero, hplace]
  omega

end Operations

end Number

open Number

namespace Histogram

section Buckets

variable {least least' width width' : Number} {buckets : Nat} {samples samples' : List Number}

/-- There is a bucket for everything. -/
theorem bucket_lt (hpos : 0 < buckets) (least width x : Number) :
    bucket least width buckets x < buckets := by
  unfold bucket
  split_ifs
  · omega
  · exact hpos

theorem bucket_congr (hleast : Coincide least least') (hwidth : Coincide width width') :
    bucket least width buckets = bucket least' width' buckets := by
  funext x
  unfold bucket
  rcases hwidth with rfl | ⟨hzero, hzero'⟩
  · rw [(((Coincide.refl x).sub hleast).div width).toNat_floor_eq]
  · rw [if_neg (not_lt_of_isZero hzero), if_neg (not_lt_of_isZero hzero')]

theorem coincide_leastOf (h : samples.Perm samples') :
    Coincide (leastOf samples) (leastOf samples') :=
  coincide_of_place_eq
    ((foremost_leastOf samples).rank_eq (foremost_leastOf samples') (h.cons _))

theorem coincide_greatestOf (h : samples.Perm samples') :
    Coincide (greatestOf samples) (greatestOf samples') :=
  coincide_of_place_eq (Int.neg_inj.1
    ((foremost_greatestOf samples).rank_eq (foremost_greatestOf samples') (h.cons _)))

theorem coincide_widthOf (h : samples.Perm samples') (buckets : Nat) :
    Coincide (widthOf samples buckets) (widthOf samples' buckets) :=
  ((coincide_greatestOf h).sub (coincide_leastOf h)).div _

end Buckets

section Tally

variable {size : Nat} {indices indices' : List Nat}

theorem getElem?_foldl_modify (i : Nat) : ∀ (indices : List Nat) (counts : Array Nat),
    (indices.foldl (fun counts i => counts.modify i (· + 1)) counts)[i]? =
      counts[i]?.map (· + indices.count i)
  | [], counts => by simp
  | j :: indices, counts => by
    rw [List.foldl_cons, getElem?_foldl_modify i indices, Array.getElem?_modify, List.count_cons]
    by_cases hij : j = i
    · rw [if_pos hij, hij, beq_self_eq_true, if_pos rfl, Option.map_map]
      congr 1
      funext count
      exact (Nat.add_right_comm ..).trans (Nat.add_assoc ..)
    · rw [if_neg hij, if_neg (by simpa using hij), Nat.add_zero]

/-- A tally has one entry for every number below its size. -/
theorem tally_eq (size : Nat) (indices : List Nat) :
    tally size indices = (List.range size).map fun i => indices.count i := by
  refine List.ext_getElem? fun i => ?_
  rw [tally, Array.getElem?_toList, getElem?_foldl_modify, List.getElem?_map]
  by_cases hi : i < size
  · simp [hi]
  · simp [hi]

/-- The entry of a bucket counts the samples that are in it. -/
theorem getElem?_tally_map {α : Type} (f : α → Nat) (xs : List α) {i : Nat} (hi : i < size) :
    (tally size (xs.map f))[i]? = some (xs.countP fun x => f x == i) := by
  rw [tally_eq, List.getElem?_map, List.getElem?_range hi, Option.map_some, List.count,
    List.countP_map]
  rfl

theorem tally_congr (h : indices.Perm indices') : tally size indices = tally size indices' := by
  rw [tally_eq, tally_eq]
  exact List.map_congr_left fun i _ => h.count_eq i

/-- If all numbers are below the size, none is left out. -/
theorem sum_tally (h : ∀ i ∈ indices, i < size) : (tally size indices).sum = indices.length := by
  have hsum := Multiset.sum_count_eq_card (s := Finset.range size) (m := (indices : Multiset Nat))
    (by simpa using h)
  rw [tally_eq]
  simpa only [Finset.sum_eq_multiset_sum, Finset.range_val, Multiset.range, Multiset.map_coe,
    Multiset.sum_coe, Multiset.coe_count, Multiset.coe_card] using hsum

end Tally

variable {samples : List Number} {buckets : Nat}

/-- There is a histogram with as many counts as buckets. Every sample is in one of the buckets, each
bucket is counted once for every sample in it, and the order of the samples does not matter. -/
theorem ofSamples?_counts (hne : samples ≠ []) (hpos : 0 < buckets) :
    ∃ histogram, ofSamples? samples buckets = some histogram ∧
      histogram.counts.length = buckets ∧
      (∀ x ∈ samples, bucket histogram.least histogram.width buckets x < buckets) ∧
      (∀ i < buckets, histogram.counts[i]? = some (samples.countP fun x =>
        bucket histogram.least histogram.width buckets x == i)) ∧
      histogram.counts.sum = samples.length ∧
      ∀ samples', samples'.Perm samples → ∃ histogram',
        ofSamples? samples' buckets = some histogram' ∧
          histogram'.counts = histogram.counts := by
  refine ⟨_, ofSamples?_eq hne hpos, ?_, fun x _ => bucket_lt hpos _ _ x,
    fun i hi => getElem?_tally_map _ _ hi, ?_, ?_⟩
  · rw [tally_eq, List.length_map, List.length_range]
  · rw [sum_tally, List.length_map]
    intro i hi
    obtain ⟨x, -, rfl⟩ := List.mem_map.1 hi
    exact bucket_lt hpos _ _ x
  · intro samples' hperm
    have hne' : samples' ≠ [] := fun h => hne (List.nil_perm.1 (h ▸ hperm))
    refine ⟨_, ofSamples?_eq hne' hpos, ?_⟩
    rw [bucket_congr (coincide_leastOf hperm) (coincide_widthOf hperm buckets)]
    exact tally_congr (hperm.map _)

/-- Not-a-numbers, zeros of both signs and an infinity, in two orders. -/
theorem ofSamples?_counts_reverse :
    let samples := [absent, zero false, undefined, infinite true, zero true]
    ∃ histogram, ofSamples? samples 3 = some histogram ∧ histogram.counts.length = 3 ∧
      histogram.counts.sum = 5 ∧ ∃ histogram',
        ofSamples? samples.reverse 3 = some histogram' ∧
          histogram'.counts = histogram.counts := by
  intro samples
  obtain ⟨histogram, hsome, hlength, -, -, hsum, hperm⟩ :=
    @ofSamples?_counts samples 3 (List.cons_ne_nil _ _) (by decide)
  exact ⟨histogram, hsome, hlength, hsum, hperm _ (List.reverse_perm _)⟩

end Histogram

end EstimateSheet
