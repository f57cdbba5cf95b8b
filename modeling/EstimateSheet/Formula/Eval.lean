import EstimateSheet.Formula.Bindings
import EstimateSheet.Formula.Expr
import EstimateSheet.Formula.Registry

/-!
# Evaluating expressions

Operands and arguments are evaluated from left to right, and each draws its random words before the
next. The right operand of a connective is not evaluated if the left one decides. A call is checked
before its arguments are evaluated.
-/

namespace EstimateSheet

namespace Expr

mutual

/-- The value of an expression. -/
def eval (b : Bindings) : Expr → Evaluation Value
  | number x => pure (.number x)
  | reference name =>
    match b.get? name with
    | some value => pure value
    | none => throw (.undefinedVariable name)
  | binary (.arithmetic op) left right => do
    let x ← left.eval b
    let y ← right.eval b
    pure (.number (op.apply x.asNumber y.asNumber))
  | binary (.comparison op) left right => do
    let x ← left.eval b
    let y ← right.eval b
    pure (.boolean (op.apply x.asNumber y.asNumber))
  | binary (.connective op) left right => do
    let x ← left.eval b
    if op.decidedBy x.holds then pure (.boolean x.holds)
    else do
      let y ← right.eval b
      pure (.boolean y.holds)
  | not operand => do
    let x ← operand.eval b
    pure (.boolean (!x.holds))
  | call function args =>
    match Registry.standard.find? function with
    | none => throw (.unknownFunction function)
    | some entry =>
      match Registry.checkArity function entry args.length with
      | .error e => throw e
      | .ok () => do
        let values ← evalAll b args
        entry.function.apply values

def evalAll (b : Bindings) : List Expr → Evaluation (List Value)
  | [] => pure []
  | e :: es => do
    let value ← e.eval b
    let values ← evalAll b es
    pure (value :: values)

end

mutual

/-- Calls a function that draws random words. -/
def isStochastic : Expr → Bool
  | number _ => false
  | reference _ => false
  | binary _ left right => left.isStochastic || right.isStochastic
  | not operand => operand.isStochastic
  | call function args =>
    (Registry.standard.find? function).any (·.function.isStochastic) || anyStochastic args

def anyStochastic : List Expr → Bool
  | [] => false
  | e :: es => e.isStochastic || anyStochastic es

end

end Expr

end EstimateSheet
