import EstimateSheet.Formula.Error
import EstimateSheet.Formula.Value
import EstimateSheet.Random.Distribution
import EstimateSheet.Statistics.Aggregate

/-!
# Built-in functions

The functions formulas can call. Arguments are evaluated before the call; a missing one counts as
not a number, and those beyond what a function takes are ignored.
-/

namespace EstimateSheet

/-- A computation that draws random words and can fail. The source is kept when it fails. -/
abbrev Evaluation (α : Type) := ExceptT FormulaError (StateT Source Option) α

/-- A function that formulas can call. -/
inductive Builtin where
  | choose
  | round
  | log
  | exp
  | sin
  | cos
  | tan
  | min
  | max
  | mean
  | median
  | stdev
  | percentile
  | normal
  | boundedNormal
  | uniform
  | triangular
deriving DecidableEq

namespace Builtin

def all : List Builtin :=
  [choose, round, log, exp, sin, cos, tan, min, max, mean, median, stdev, percentile, normal,
    boundedNormal, uniform, triangular]

def name : Builtin → String
  | choose => "if"
  | round => "round"
  | log => "log"
  | exp => "exp"
  | sin => "sin"
  | cos => "cos"
  | tan => "tan"
  | min => "min"
  | max => "max"
  | mean => "mean"
  | median => "median"
  | stdev => "stdev"
  | percentile => "percentile"
  | normal => "normal"
  | boundedNormal => "bounded_normal"
  | uniform => "uniform"
  | triangular => "triangular"

/-- How many arguments a function takes. -/
def arity : Builtin → Arity
  | choose => .exactly 3
  | round => .exactly 1
  | log => .exactly 1
  | exp => .exactly 1
  | sin => .exactly 1
  | cos => .exactly 1
  | tan => .exactly 1
  | min => .atLeast 1
  | max => .atLeast 1
  | mean => .atLeast 1
  | median => .atLeast 1
  | stdev => .atLeast 1
  | percentile => .atLeast 2
  | normal => .exactly 2
  | boundedNormal => .exactly 2
  | uniform => .exactly 2
  | triangular => .exactly 3

/-- Draws random words at every call. -/
def isStochastic : Builtin → Bool
  | normal => true
  | boundedNormal => true
  | uniform => true
  | triangular => true
  | _ => false

def argument (args : List Value) (i : Nat) : Number := (args[i]?.map Value.asNumber).getD .absent

/-- The second argument if the first one holds, else the third. -/
def chosen (args : List Value) : Value :=
  let picked := if (args[0]?.map Value.holds).getD false then args[1]? else args[2]?
  picked.getD (.number .absent)

/-- The nearest whole number; halves go up. -/
def rounded (x : Number) : Number :=
  let floor := x.floor
  if Number.le 0.5 (x - floor) then floor + 1 else floor

/-- The result of a sampler as a value. -/
def sampled (draw : Sampler Number) : Evaluation Value := do
  let x ← draw
  pure (.number x)

/-- The value of a function at some arguments. -/
def apply (f : Builtin) (args : List Value) : Evaluation Value :=
  let x := argument args 0
  let y := argument args 1
  let z := argument args 2
  let numbers := args.map Value.asNumber
  match f with
  | choose => pure (chosen args)
  | round => pure (.number (rounded x))
  | log => pure (.number x.log)
  | exp => pure (.number x.exp)
  | sin => pure (.number x.sin)
  | cos => pure (.number x.cos)
  | tan => pure (.number x.tan)
  | min => pure (.number (Statistics.minimum numbers))
  | max => pure (.number (Statistics.maximum numbers))
  | mean => pure (.number (Statistics.mean numbers))
  | median => pure (.number (Statistics.median numbers))
  | stdev => pure (.number (Statistics.deviation numbers))
  | percentile =>
    match Statistics.percentile? x numbers.tail with
    | some result => pure (.number result)
    | none => throw (.percentileRange x)
  | normal => sampled (Sampler.normal x y)
  | boundedNormal => sampled (Sampler.boundedNormal x y)
  | uniform => sampled (Sampler.uniform x y)
  | triangular => sampled (Sampler.triangular x y z)

end Builtin

end EstimateSheet
