import EstimateSheet.Proofs.Percentiles
import EstimateSheet.Statistics.Histogram

/-!
# Extrema

The least and the greatest of some numbers are found in four ways: by a scan that gives up at a
not-a-number, by one that skips it, at the ends of the sorted numbers, and as the percentiles `0`
and `100`. A scan keeps the foremost number by a rank (`Number.foremost_scan`), and the total order
refines the numeric one (`Number.place_le_of_totalLe`). So all four ways come to a number of the
list that is numerically at its end, if all of it are numbers (`Statistics.extrema_agree`). The
percentile `100` does so where the position of the last number is not rounded, as it first is with
`2 ^ 53 + 2` numbers (`Statistics.extrema_differ`).
-/

namespace EstimateSheet

namespace Number

variable {x y : Number} {xs ys : List Number}

theorem le_iff : x.le y = true ↔ x.isNaN = false ∧ y.isNaN = false ∧ x.place ≤ y.place := by
  simp [le, and_assoc]

theorem lt_iff : x.lt y = true ↔ x.isNaN = false ∧ y.isNaN = false ∧ x.place < y.place := by
  simp [lt, and_assoc]

theorem eq_iff : x.eq y = true ↔ x.isNaN = false ∧ y.isNaN = false ∧ x.place = y.place := by
  simp [eq, and_assoc]

theorem place_le_of_totalLe (h : x.totalLe y = true) : x.place ≤ y.place := by
  rw [totalLe_iff, totalPlace, totalPlace] at h
  unfold place
  split_ifs at h ⊢ <;> omega

/-- Of the list, and below or equal to all of it. -/
structure LeastIn (x : Number) (xs : List Number) : Prop where
  mem : x ∈ xs
  le : ∀ y ∈ xs, x.le y = true

/-- Of the list, and above or equal to all of it. -/
structure GreatestIn (x : Number) (xs : List Number) : Prop where
  mem : x ∈ xs
  le : ∀ y ∈ xs, y.le x = true

theorem eq_of_le (h : x.le y = true) (h' : y.le x = true) : x.eq y = true := by
  rw [le_iff] at h h'
  exact eq_iff.2 ⟨h.1, h.2.1, Int.le_antisymm h.2.2 h'.2.2⟩

theorem LeastIn.eq (hx : x.LeastIn xs) (hy : y.LeastIn xs) : x.eq y = true :=
  eq_of_le (hx.le y hy.mem) (hy.le x hx.mem)

theorem GreatestIn.eq (hx : x.GreatestIn xs) (hy : y.GreatestIn xs) : x.eq y = true :=
  eq_of_le (hy.le x hx.mem) (hx.le y hy.mem)

section Scan

variable {rank : Number → Int} {better : Number → Number → Bool} {start worst : Number}

/-- A number of the list that no other one comes before. Not-a-numbers have no rank. -/
structure Foremost (rank : Number → Int) (xs : List Number) (x : Number) : Prop where
  mem : x ∈ xs
  isNaN_eq : x.isNaN = false
  rank_le : ∀ y ∈ xs, y.isNaN = false → rank x ≤ rank y

/-- All foremost numbers have the same rank, and the order of the list does not matter to it. -/
theorem Foremost.rank_eq (hx : Foremost rank xs x) (hy : Foremost rank ys y)
    (h : xs.Perm ys) : rank x = rank y :=
  Int.le_antisymm (hx.rank_le y (h.mem_iff.2 hy.mem) hy.isNaN_eq)
    (hy.rank_le x (h.mem_iff.1 hx.mem) hx.isNaN_eq)

/-- A start that comes behind everything takes no part. -/
theorem Foremost.of_cons (hx : Foremost rank (worst :: xs) x)
    (hworst : ∀ y : Number, y.isNaN = false → rank worst ≤ rank y → y = worst) (hy : y ∈ xs)
    (hnumber : y.isNaN = false) : Foremost rank xs x where
  mem := by
    rcases List.mem_cons.1 hx.mem with rfl | hmem
    · rwa [← hworst y hnumber (hx.rank_le y (List.mem_cons_of_mem _ hy) hnumber)]
    · exact hmem
  isNaN_eq := hx.isNaN_eq
  rank_le z hz := hx.rank_le z (List.mem_cons_of_mem _ hz)

/-- The best of a start and a list, the first one of those that are equally good. -/
def scan (better : Number → Number → Bool) (start : Number) (xs : List Number) : Number :=
  xs.foldl (fun best x => if better x best then x else best) start

theorem foremost_scan (hbetter : ∀ {x best : Number}, best.isNaN = false →
      (better x best = true ↔ x.isNaN = false ∧ rank x < rank best)) :
    ∀ (xs : List Number) {start : Number}, start.isNaN = false →
      Foremost rank (start :: xs) (scan better start xs)
  | [], start, hstart => ⟨List.mem_singleton_self _, hstart, fun y hy _ => by
      rw [List.mem_singleton.1 hy]
      exact Int.le_refl _⟩
  | x :: xs, start, hstart => by
    rw [scan, List.foldl_cons]
    by_cases hx : better x start = true
    · obtain ⟨hnumber, hlt⟩ := (hbetter hstart).1 hx
      have ih := foremost_scan hbetter xs hnumber
      rw [if_pos hx]
      refine ⟨List.mem_cons_of_mem _ ih.mem, ih.isNaN_eq, ?_⟩
      intro y hy hynumber
      rcases List.mem_cons.1 hy with rfl | hy
      · exact (ih.rank_le x List.mem_cons_self hnumber).trans hlt.le
      · exact ih.rank_le y hy hynumber
    · have ih := foremost_scan hbetter xs hstart
      rw [if_neg hx]
      refine ⟨?_, ih.isNaN_eq, ?_⟩
      · rcases List.mem_cons.1 ih.mem with hmem | hmem
        · exact List.mem_cons.2 (.inl hmem)
        · exact List.mem_cons_of_mem _ (List.mem_cons_of_mem _ hmem)
      · intro y hy hynumber
        rcases List.mem_cons.1 hy with rfl | hy
        · exact ih.rank_le y List.mem_cons_self hynumber
        rcases List.mem_cons.1 hy with rfl | hy
        · have hnot : ¬ rank y < rank start := fun hlt => hx ((hbetter hstart).2 ⟨hynumber, hlt⟩)
          exact (ih.rank_le start List.mem_cons_self hstart).trans (Int.not_lt.1 hnot)
        · exact ih.rank_le y (List.mem_cons_of_mem _ hy) hynumber

end Scan

section Infinite

theorem isNaN_infinite (negative : Bool) : (infinite negative).isNaN = false := by
  simp [isNaN, infinite]

theorem place_neg (x : Number) : (-x).place = -x.place := by
  unfold place
  change (if (!x.negative) = true then _ else _) = -(if x.negative = true then _ else _)
  cases x.negative
  · rfl
  · exact (Int.neg_neg _).symm

theorem infinite_div_natCast {n : Nat} (hn : n < 2 ^ 53) (negative : Bool) :
    infinite negative / (n : Number) = infinite negative := by
  have hfinite := isFinite_natCast hn
  have hinfinite : (infinite negative).isInfinite = true := beq_self_eq_true infiniteMagnitude
  change passNaN (infinite negative) (n : Number) _ = _
  rw [passNaN, isNaN_infinite, if_neg Bool.false_ne_true, isNaN_eq_false hfinite,
    if_neg Bool.false_ne_true, if_pos hinfinite,
    if_neg fun h => not_isFinite_of_isInfinite h hfinite]
  exact congrArg infinite (Bool.bne_false negative)

/-- Nothing is above infinity. -/
theorem eq_infinite_of_place_le (hx : x.isNaN = false)
    (h : (infinite false).place ≤ x.place) : x = infinite false := by
  have hpos : 0 < infiniteMagnitude := by decide
  have hinfinite : (infinite false).place = infiniteMagnitude := rfl
  rw [isNaN, decide_eq_false_iff_not] at hx
  rw [hinfinite, place] at h
  by_cases hsign : x.negative = true
  · rw [if_pos hsign] at h
    omega
  · rw [if_neg hsign] at h
    have htop : x.isInfinite = true := beq_iff_eq.2 (by omega)
    rw [eq_infinite htop, Bool.eq_false_iff.2 hsign]

/-- Nothing is below negative infinity. -/
theorem eq_infinite_of_le_place (hx : x.isNaN = false)
    (h : x.place ≤ (infinite true).place) : x = infinite true := by
  have hle : (infinite false).place ≤ (-x).place := by
    rw [place_neg]
    exact Int.neg_le_neg h
  rw [← neg_neg x, eq_infinite_of_place_le (x := -x) hx hle]
  rfl

end Infinite

end Number

open Number

variable {xs ys : List Number}

namespace Histogram

theorem foremost_leastOf (xs : List Number) :
    Foremost place (infinite false :: xs) (leastOf xs) :=
  @foremost_scan place (fun x least => x.lt least)
    (fun hbest => by rw [lt_iff]; simp [hbest]) xs _ (isNaN_infinite false)

theorem foremost_greatestOf (xs : List Number) :
    Foremost (fun x => -x.place) (infinite true :: xs) (greatestOf xs) :=
  @foremost_scan (fun x => -x.place) (fun x greatest => greatest.lt x)
    (fun hbest => by rw [lt_iff]; simp [hbest]) xs _ (isNaN_infinite true)

theorem leastIn_leastOf (hne : xs ≠ []) (hnumber : ∀ x ∈ xs, x.isNaN = false) :
    (leastOf xs).LeastIn xs := by
  obtain ⟨x, hx⟩ := List.exists_mem_of_ne_nil xs hne
  have hfirst := (foremost_leastOf xs).of_cons
    (fun _ hy h => eq_infinite_of_place_le hy h) hx (hnumber x hx)
  exact ⟨hfirst.mem, fun y hy => le_iff.2
    ⟨hfirst.isNaN_eq, hnumber y hy, hfirst.rank_le y hy (hnumber y hy)⟩⟩

theorem greatestIn_greatestOf (hne : xs ≠ []) (hnumber : ∀ x ∈ xs, x.isNaN = false) :
    (greatestOf xs).GreatestIn xs := by
  obtain ⟨x, hx⟩ := List.exists_mem_of_ne_nil xs hne
  have hfirst := (foremost_greatestOf xs).of_cons
    (fun _ hy h => eq_infinite_of_le_place hy (Int.neg_le_neg_iff.1 h)) hx (hnumber x hx)
  exact ⟨hfirst.mem, fun y hy => le_iff.2
    ⟨hnumber y hy, hfirst.isNaN_eq, Int.neg_le_neg_iff.1 (hfirst.rank_le y hy (hnumber y hy))⟩⟩

end Histogram

namespace Statistics

open Histogram

section Extremum

variable {better : Number → Number → Bool} {worst : Number}

/-- Without not-a-numbers there is nothing to stop at. -/
theorem extremum_eq_scan : ∀ {xs : List Number} {worst : Number},
    (∀ x ∈ xs, x.isNaN = false) → extremum better worst xs = scan better worst xs
  | [], _, _ => rfl
  | x :: xs, worst, h => by
    obtain ⟨hx, hxs⟩ := List.forall_mem_cons.1 h
    rw [extremum, hx, if_neg Bool.false_ne_true, extremum_eq_scan hxs]
    rfl

theorem extremum_of_isNaN : ∀ {xs : List Number} {worst : Number},
    (∃ x ∈ xs, x.isNaN = true) → extremum better worst xs = absent
  | x :: xs, worst, h => by
    rw [extremum]
    by_cases hx : x.isNaN = true
    · rw [if_pos hx]
    · rw [if_neg hx]
      refine extremum_of_isNaN ?_
      obtain ⟨y, hy, hynan⟩ := h
      rcases List.mem_cons.1 hy with rfl | hy
      · exact absurd hynan hx
      · exact ⟨y, hy, hynan⟩

theorem minimum_eq_leastOf (hnumber : ∀ x ∈ xs, x.isNaN = false) : minimum xs = leastOf xs :=
  extremum_eq_scan hnumber

theorem maximum_eq_greatestOf (hnumber : ∀ x ∈ xs, x.isNaN = false) :
    maximum xs = greatestOf xs :=
  extremum_eq_scan hnumber

end Extremum

section Sorted

variable {x : Number}

theorem leastIn_of_sort (hnumber : ∀ x ∈ xs, x.isNaN = false) (h : (sort xs)[0]? = some x) :
    x.LeastIn xs := by
  have hx := (sort_perm xs).mem_iff.1 (List.mem_of_getElem? h)
  refine ⟨hx, fun y hy => le_iff.2 ⟨hnumber x hx, hnumber y hy, place_le_of_totalLe ?_⟩⟩
  obtain ⟨i, hi⟩ := List.mem_iff_getElem?.1 ((sort_perm xs).mem_iff.2 hy)
  exact totalLe_of_getElem? (pairwise_sort xs) (Nat.zero_le i) h hi

theorem greatestIn_of_sort (hnumber : ∀ x ∈ xs, x.isNaN = false)
    (h : (sort xs)[xs.length - 1]? = some x) : x.GreatestIn xs := by
  have hx := (sort_perm xs).mem_iff.1 (List.mem_of_getElem? h)
  refine ⟨hx, fun y hy => le_iff.2 ⟨hnumber y hy, hnumber x hx, place_le_of_totalLe ?_⟩⟩
  obtain ⟨i, hi⟩ := List.mem_iff_getElem?.1 ((sort_perm xs).mem_iff.2 hy)
  have hlt := (List.getElem?_eq_some_iff.1 hi).1
  rw [length_sort] at hlt
  exact totalLe_of_getElem? (pairwise_sort xs) (by omega) hi h

end Sorted

section Percentiles

variable {sorted : List Number}

/-- However many numbers there are, the percentile `0` is the first of them. -/
theorem percentileOfSorted_zero (hne : sorted ≠ []) :
    sorted[0]? = some (percentileOfSorted sorted 0) := by
  have hzero : (0 / 100 : Number).isZero = true := by decide +kernel
  have hposition := toNat_floor_of_isZero_or_isNaN
    (isZero_or_isNaN_mul_left (y := ((sorted.length - 1 : Nat) : Number)) hzero)
  exact getElem?_of_position hposition (List.length_pos_iff.2 hne)

/-- Of `2 ^ 53 + 1` numbers the last position is a number itself. With one number more it is halfway
between two numbers and is rounded to the one below. -/
theorem percentilePosition_rounded : ∀ count ∈ [2 ^ 53 + 1, 2 ^ 53 + 2],
    (percentilePosition count 100).floor.toNat = 2 ^ 53 ∧
      (percentilePosition count 100).ceil.toNat = 2 ^ 53 := by
  decide +kernel

theorem percentilePosition_hundred {count : Nat} (hle : count ≤ 2 ^ 53 + 1) :
    (percentilePosition count 100).floor.toNat = count - 1 ∧
      (percentilePosition count 100).ceil.toNat = count - 1 := by
  rcases Nat.eq_or_lt_of_le hle with rfl | hlt
  · exact percentilePosition_rounded _ List.mem_cons_self
  · have hone : (100 / 100 : Number) = 1 := by decide +kernel
    have hlast : count - 1 < 2 ^ 53 := by omega
    rw [percentilePosition, hone, one_mul_of_isFinite (isFinite_natCast hlast)]
    exact toNat_floor_natCast hlast

/-- The percentile `100` is the last number, if the position of that is exact. -/
theorem percentileOfSorted_hundred (hne : sorted ≠ []) (hle : sorted.length ≤ 2 ^ 53 + 1) :
    sorted[sorted.length - 1]? = some (percentileOfSorted sorted 100) := by
  have hpos : 0 < sorted.length := List.length_pos_iff.2 hne
  exact getElem?_of_position (percentilePosition_hundred hle) (by omega)

/-- With one number more it is the last but one. -/
theorem percentileOfSorted_hundred_of_length (hlength : sorted.length = 2 ^ 53 + 2) :
    sorted[2 ^ 53]? = some (percentileOfSorted sorted 100) := by
  have hposition := percentilePosition_rounded (2 ^ 53 + 2)
    (List.mem_cons_of_mem _ List.mem_cons_self)
  rw [← hlength] at hposition
  exact getElem?_of_position hposition (by omega)

end Percentiles

end Statistics

theorem Summary.exists_ends (hne : xs ≠ []) : ∃ summary, ofSamples? xs = some summary ∧
    (sort xs)[0]? = some summary.least ∧ (sort xs)[xs.length - 1]? = some summary.greatest := by
  have hpos : 0 < xs.length := List.length_pos_iff.2 hne
  exact ⟨_, if_neg (by rwa [List.isEmpty_iff]), getD_sort hpos, getD_sort (by omega)⟩

/-- The width of the buckets. -/
def Histogram.widthOf (samples : List Number) (buckets : Nat) : Number :=
  (greatestOf samples - leastOf samples) / (buckets : Number)

theorem Histogram.ofSamples?_eq (hne : xs ≠ []) {buckets : Nat} (hpos : 0 < buckets) :
    ofSamples? xs buckets = some ⟨leastOf xs, greatestOf xs, widthOf xs buckets,
      tally buckets (xs.map (bucket (leastOf xs) (widthOf xs buckets) buckets))⟩ := by
  refine if_neg ?_
  rw [Bool.or_eq_true, List.isEmpty_iff, decide_eq_true_eq, not_or]
  exact ⟨hne, hpos.ne'⟩

namespace Statistics

open Histogram

/-- All the results are at the same end of a list: each one is of the list, and they are
numerically equal. -/
structure Agree (AtEnd : Number → List Number → Prop) (xs results : List Number) : Prop where
  atEnd : ∀ x ∈ results, AtEnd x xs
  eq : ∀ x ∈ results, ∀ y ∈ results, x.eq y = true

theorem agree_leastIn {results : List Number} (h : ∀ x ∈ results, x.LeastIn xs) :
    Agree LeastIn xs results :=
  ⟨h, fun x hx y hy => (h x hx).eq (h y hy)⟩

theorem agree_greatestIn {results : List Number} (h : ∀ x ∈ results, x.GreatestIn xs) :
    Agree GreatestIn xs results :=
  ⟨h, fun x hx y hy => (h x hx).eq (h y hy)⟩

/-- Without not-a-numbers, and with at least one bucket, all four ways to find the least number
agree. So do all four ways to find the greatest one, the percentile `100` as long as the position of
the last number is exact, as it is with up to `2 ^ 53 + 1` numbers. A not-a-number anywhere is what
the minimum and the maximum come to. -/
theorem extrema_agree {args : List Value} {xs : List Number}
    (hargs : args.map Value.asNumber = xs) (hne : xs ≠ []) {buckets : Nat} (hpos : 0 < buckets) :
    ((∀ x ∈ xs, x.isNaN = false) → ∃ least greatest bottom top summary histogram,
      Builtin.min.apply args = pure (.number least) ∧
      Builtin.max.apply args = pure (.number greatest) ∧
      Builtin.percentile.apply (.number 0 :: args) = pure (.number bottom) ∧
      Builtin.percentile.apply (.number 100 :: args) = pure (.number top) ∧
      Summary.ofSamples? xs = some summary ∧
      Histogram.ofSamples? xs buckets = some histogram ∧
      Agree LeastIn xs [least, bottom, summary.least, histogram.least] ∧
      Agree GreatestIn xs [greatest, summary.greatest, histogram.greatest] ∧
      (xs.length ≤ 2 ^ 53 + 1 →
        Agree GreatestIn xs [greatest, top, summary.greatest, histogram.greatest])) ∧
    ((∃ x ∈ xs, x.isNaN = true) → ∃ least greatest,
      Builtin.min.apply args = pure (.number least) ∧ least.isNaN = true ∧
      Builtin.max.apply args = pure (.number greatest) ∧ greatest.isNaN = true) := by
  have hsorted : sort xs ≠ [] := List.ne_nil_of_length_pos (by
    rw [length_sort]
    exact List.length_pos_iff.2 hne)
  have hmin : Builtin.min.apply args = pure (.number (minimum xs)) := hargs ▸ rfl
  have hmax : Builtin.max.apply args = pure (.number (maximum xs)) := hargs ▸ rfl
  have hpercentile {p : Number} (hp : between 0 100 p = true) : Builtin.percentile.apply
      (.number p :: args) = pure (.number (percentileOfSorted (sort xs) p)) :=
    hargs ▸ @Builtin.apply_percentile (.number p :: args) hp
  refine ⟨fun hnumber => ?_, fun hnan => ?_⟩
  · obtain ⟨summary, hsummary, hfirst, hlast⟩ := Summary.exists_ends hne
    have hlow := leastIn_leastOf hne hnumber
    have hhigh := greatestIn_greatestOf hne hnumber
    rw [minimum_eq_leastOf hnumber] at hmin
    rw [maximum_eq_greatestOf hnumber] at hmax
    refine ⟨_, _, _, _, summary, _, hmin, hmax, hpercentile (by decide +kernel),
      hpercentile (by decide +kernel), hsummary, ofSamples?_eq hne hpos, agree_leastIn ?_,
      agree_greatestIn ?_, fun hle => agree_greatestIn ?_⟩
    · simp only [List.forall_mem_cons]
      exact ⟨hlow, leastIn_of_sort hnumber (percentileOfSorted_zero hsorted),
        leastIn_of_sort hnumber hfirst, hlow, fun _ h => nomatch h⟩
    · simp only [List.forall_mem_cons]
      exact ⟨hhigh, greatestIn_of_sort hnumber hlast, hhigh, fun _ h => nomatch h⟩
    · have htop := percentileOfSorted_hundred hsorted (by rwa [length_sort])
      rw [length_sort] at htop
      simp only [List.forall_mem_cons]
      exact ⟨hhigh, greatestIn_of_sort hnumber htop, greatestIn_of_sort hnumber hlast, hhigh,
        fun _ h => nomatch h⟩
  · rw [minimum, extremum_of_isNaN hnan] at hmin
    rw [maximum, extremum_of_isNaN hnan] at hmax
    exact ⟨absent, absent, hmin, by decide, hmax, by decide⟩

/-- The two zeros are equal, whichever of them a way finds. -/
theorem extrema_agree_zeros :
    let args : List Value := [.number (zero false), .number (zero true), .boolean true]
    let xs : List Number := [zero false, zero true, 1]
    (∃ least greatest bottom top summary histogram,
      Builtin.min.apply args = pure (.number least) ∧
      Builtin.max.apply args = pure (.number greatest) ∧
      Builtin.percentile.apply (.number 0 :: args) = pure (.number bottom) ∧
      Builtin.percentile.apply (.number 100 :: args) = pure (.number top) ∧
      Summary.ofSamples? xs = some summary ∧ Histogram.ofSamples? xs 2 = some histogram ∧
      Agree LeastIn xs [least, bottom, summary.least, histogram.least] ∧
      Agree GreatestIn xs [greatest, top, summary.greatest, histogram.greatest]) ∧
    ∃ least greatest,
      Builtin.min.apply (.boolean true :: .number undefined :: args) = pure (.number least) ∧
      least.isNaN = true ∧
      Builtin.max.apply (.boolean true :: .number undefined :: args) = pure (.number greatest) ∧
      greatest.isNaN = true := by
  intro args xs
  obtain ⟨least, greatest, bottom, top, summary, histogram, hmin, hmax, hbottom, htop, hsummary,
    hhistogram, hleast, -, hgreatest⟩ :=
      (@extrema_agree args xs rfl (List.cons_ne_nil _ _) 2 Nat.two_pos).1 (by decide +kernel)
  refine ⟨⟨least, greatest, bottom, top, summary, histogram, hmin, hmax, hbottom, htop, hsummary,
    hhistogram, hleast, hgreatest (by decide)⟩, ?_⟩
  exact (@extrema_agree (.boolean true :: .number undefined :: args) (1 :: undefined :: xs) rfl
    (List.cons_ne_nil _ _) 2 Nat.two_pos).2
      ⟨undefined, List.mem_cons_of_mem _ List.mem_cons_self, by decide⟩

section ZerosAndOne

/-- Some zeros and then a one. -/
def zerosAndOne (n : Nat) : List Number := List.replicate n 0 ++ [1]

theorem one_above_zero : ¬ Number.le 1 0 = true ∧ ¬ Number.eq 1 0 = true := by decide +kernel

theorem mem_zerosAndOne {n : Nat} {x : Number} (h : x ∈ zerosAndOne n) : x = 0 ∨ x = 1 := by
  rcases List.mem_append.1 h with hzero | hone
  · exact .inl (List.eq_of_mem_replicate hzero)
  · exact .inr (List.mem_singleton.1 hone)

theorem sort_zerosAndOne (n : Nat) : sort (zerosAndOne n) = zerosAndOne n := by
  refine (eq_sort (.refl _) (List.pairwise_append.2 ⟨?_, List.pairwise_singleton _ _, ?_⟩)).symm
  · exact List.pairwise_replicate.2 (.inr (by decide))
  · intro x hx y hy
    rw [List.eq_of_mem_replicate hx, List.mem_singleton.1 hy]
    decide

theorem isNaN_of_mem_zerosAndOne (n : Nat) : ∀ x ∈ zerosAndOne n, x.isNaN = false := by
  intro x hx
  rcases mem_zerosAndOne hx with rfl | rfl
  · decide
  · exact isNaN_eq_false isFinite_one

theorem maximum_zerosAndOne (n : Nat) : maximum (zerosAndOne n) = 1 := by
  have hone : (1 : Number) ∈ zerosAndOne n := List.mem_append_right _ (List.mem_singleton_self 1)
  have hgreatest :=
    greatestIn_greatestOf (List.ne_nil_of_mem hone) (isNaN_of_mem_zerosAndOne n)
  have hle := hgreatest.le 1 hone
  rw [maximum_eq_greatestOf (isNaN_of_mem_zerosAndOne n)]
  refine (mem_zerosAndOne hgreatest.mem).resolve_left fun hzero => ?_
  rw [hzero] at hle
  exact one_above_zero.1 hle

theorem percentileOfSorted_zerosAndOne {n : Nat} (hn : n = 2 ^ 53 + 1) :
    percentileOfSorted (sort (zerosAndOne n)) 100 = 0 := by
  -- the number of zeros stays a variable, as the list must not be unfolded
  have hlength : (zerosAndOne n).length = 2 ^ 53 + 2 := by
    rw [zerosAndOne, List.length_append, List.length_replicate, hn]
    rfl
  have hread := percentileOfSorted_hundred_of_length hlength
  have hat : (zerosAndOne n)[2 ^ 53]? = some 0 := by
    rw [zerosAndOne, List.getElem?_append_left (by rw [List.length_replicate]; omega),
      List.getElem?_replicate, if_pos (by omega)]
  rw [hat] at hread
  rw [sort_zerosAndOne]
  exact (Option.some_inj.1 hread).symm

end ZerosAndOne

/-- Of `2 ^ 53 + 1` zeros and a one the percentile `100` is zero, and without buckets there is no
histogram whose ends could be compared. -/
theorem extrema_differ :
    let xs := zerosAndOne (2 ^ 53 + 1)
    let args := xs.map Value.number
    (args.map Value.asNumber = xs ∧ xs ≠ [] ∧ (∀ x ∈ xs, x.isNaN = false) ∧
      Builtin.max.apply args = pure (.number 1) ∧
      Builtin.percentile.apply (.number 100 :: args) = pure (.number 0) ∧
      ¬ Number.eq 1 0 = true ∧ ¬ GreatestIn 0 xs) ∧
    Histogram.ofSamples? [1] 0 = none := by
  intro xs args
  have hargs : args.map Value.asNumber = xs := List.map_map.trans (List.map_id xs)
  have hone : (1 : Number) ∈ xs := List.mem_append_right _ (List.mem_singleton_self 1)
  have hmax : Builtin.max.apply args = pure (.number (maximum xs)) := hargs ▸ rfl
  have hpercentile : Builtin.percentile.apply (.number 100 :: args) =
      pure (.number (percentileOfSorted (sort xs) 100)) :=
    hargs ▸ @Builtin.apply_percentile (.number 100 :: args) (by decide +kernel)
  rw [maximum_zerosAndOne] at hmax
  rw [percentileOfSorted_zerosAndOne rfl] at hpercentile
  exact ⟨⟨hargs, List.ne_nil_of_mem hone, isNaN_of_mem_zerosAndOne _, hmax, hpercentile,
    one_above_zero.2, fun h => one_above_zero.1 (h.le 1 hone)⟩, rfl⟩

end Statistics

end EstimateSheet
