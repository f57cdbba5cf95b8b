import EstimateSheet.Formula.Builtin
import EstimateSheet.Statistics.Summary
import Mathlib.Data.List.Sort

/-!
# Sorted samples

The total order tells any two numbers apart, zeros with different signs and not-a-numbers included,
so a list of numbers can be sorted in one way only (`Number.eq_sort`). A statistic that looks at its
samples in sorted order alone does not depend on the order in which they are given. This is so for
the summary, sums and all, and for the median and the percentiles (`Statistics.eq_of_perm`).
-/

namespace EstimateSheet

namespace Number

variable {x y : Number} {xs ys : List Number}

theorem totalLe_iff : x.totalLe y = true ↔ x.totalPlace ≤ y.totalPlace := decide_eq_true_iff

theorem totalLe_refl (x : Number) : x.totalLe x = true := totalLe_iff.2 (Int.le_refl _)

theorem totalLe_trans (x y z : Number) (h : x.totalLe y = true) (h' : y.totalLe z = true) :
    x.totalLe z = true :=
  totalLe_iff.2 (Int.le_trans (totalLe_iff.1 h) (totalLe_iff.1 h'))

theorem totalLe_total (x y : Number) : (x.totalLe y || y.totalLe x) = true := by
  rw [Bool.or_eq_true, totalLe_iff, totalLe_iff]
  exact Int.le_total _ _

theorem totalLe_antisymm (h : x.totalLe y = true) (h' : y.totalLe x = true) : x = y :=
  totalPlace_inj.1 (Int.le_antisymm (totalLe_iff.1 h) (totalLe_iff.1 h'))

theorem sort_perm (xs : List Number) : (sort xs).Perm xs := List.mergeSort_perm xs totalLe

theorem length_sort (xs : List Number) : (sort xs).length = xs.length := (sort_perm xs).length_eq

theorem pairwise_sort (xs : List Number) : (sort xs).Pairwise fun x y => x.totalLe y = true :=
  List.pairwise_mergeSort totalLe_trans totalLe_total xs

/-- A list has no other sorted form. -/
theorem eq_sort (hperm : ys.Perm xs) (hsorted : ys.Pairwise fun x y => x.totalLe y = true) :
    ys = sort xs :=
  (hperm.trans (sort_perm xs).symm).eq_of_pairwise (fun _ _ _ _ => totalLe_antisymm) hsorted
    (pairwise_sort xs)

theorem sort_congr (h : xs.Perm ys) : sort xs = sort ys :=
  eq_sort ((sort_perm xs).trans h) (pairwise_sort xs)

end Number

open Number

theorem Summary.ofSamples?_congr {xs ys : List Number} (h : xs.Perm ys) :
    ofSamples? xs = ofSamples? ys := by
  unfold ofSamples?
  rw [sort_congr h, h.length_eq, h.isEmpty_eq]

namespace Statistics

variable {xs ys : List Number}

theorem median_congr (h : xs.Perm ys) : median xs = median ys := by
  unfold median
  rw [sort_congr h, h.length_eq, h.isEmpty_eq]

theorem percentile?_congr (h : xs.Perm ys) (p : Number) : percentile? p xs = percentile? p ys := by
  unfold percentile?
  rw [sort_congr h]

/-- The order of the samples, whatever they are, plays no part in any field of their summary, in
their median and in their percentiles, nor in the error where a percentile is out of range. -/
theorem eq_of_perm (h : xs.Perm ys) :
    Summary.ofSamples? xs = Summary.ofSamples? ys ∧
    ∀ args args' : List Value, args.map Value.asNumber = xs → args'.map Value.asNumber = ys →
      Builtin.median.apply args = Builtin.median.apply args' ∧
      ∀ p : Value, Builtin.percentile.apply (p :: args) = Builtin.percentile.apply (p :: args') ∧
        (¬ between 0 100 p.asNumber = true →
          Builtin.percentile.apply (p :: args) = throw (.percentileRange p.asNumber)) := by
  refine ⟨Summary.ofSamples?_congr h, fun args args' hargs hargs' => ⟨?_, fun p => ⟨?_, ?_⟩⟩⟩
  · unfold Builtin.apply
    simp only [hargs, hargs', median_congr h]
  · unfold Builtin.apply
    simp only [List.map_cons, List.tail_cons, hargs, hargs', percentile?_congr h]
    rfl
  · intro hp
    have hnone : percentile? (Builtin.argument (p :: args) 0) (args.map Value.asNumber) = none :=
      if_neg hp
    unfold Builtin.apply
    simp only [List.map_cons, List.tail_cons, hnone]
    rfl

/-- Not-a-numbers of both signs, zeros of both signs and an infinity, in two orders. -/
theorem eq_of_perm_reverse :
    let xs := [absent, undefined, zero false, zero true, infinite true]
    xs.Perm xs.reverse ∧ Summary.ofSamples? xs = Summary.ofSamples? xs.reverse ∧
      Builtin.median.apply (xs.map .number) = Builtin.median.apply (xs.reverse.map .number) ∧
      Builtin.percentile.apply (.number 75 :: xs.map .number) =
        Builtin.percentile.apply (.number 75 :: xs.reverse.map .number) ∧
      Builtin.percentile.apply (.number 101 :: xs.map .number) = throw (.percentileRange 101) := by
  intro xs
  have hperm : xs.Perm xs.reverse := xs.reverse_perm.symm
  obtain ⟨hsummary, hcalls⟩ := eq_of_perm hperm
  obtain ⟨hmedian, hpercentile⟩ := hcalls (xs.map .number) (xs.reverse.map .number) rfl rfl
  exact ⟨hperm, hsummary, hmedian, (hpercentile (.number 75)).1,
    (hpercentile (.number 101)).2 (by decide +kernel)⟩

-- sums do depend on the order
example : Number.sum [0.1, 0.2, 0.3] ≠ Number.sum [0.3, 0.2, 0.1] := by decide +kernel

end Statistics

end EstimateSheet
