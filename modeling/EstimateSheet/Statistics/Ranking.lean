import EstimateSheet.Statistics.Regression

/-!
# Rankings

The variables a target depends on most: those with the largest `beta`, regardless of its sign.
Variables with the same `beta` stay in the order in which they are given.
-/

namespace EstimateSheet

/-- A variable and the regression of the target on it. -/
structure Sensitivity where
  name : String
  regression : Regression
deriving DecidableEq

namespace Sensitivity

/-- The size of the effect. -/
def strength (s : Sensitivity) : Number := s.regression.beta.abs

/-- The variables on which the target has a regression. -/
def ofCandidates (target : List Number) (candidates : List (String × List Number)) :
    List Sensitivity :=
  candidates.filterMap fun (name, samples) => (Regression.of? target samples).map (⟨name, ·⟩)

/-- The `limit` strongest variables, strongest first. -/
def rank (target : List Number) (candidates : List (String × List Number)) (limit : Nat) :
    List Sensitivity :=
  ((ofCandidates target candidates).mergeSort fun a b => b.strength.totalLe a.strength).take limit

/-- The regression on the first variable of a ranking that has a name. -/
def find? (ranking : List Sensitivity) (name : String) : Option Regression :=
  (ranking.find? (·.name == name)).map (·.regression)

end Sensitivity

end EstimateSheet
