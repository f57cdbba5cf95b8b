import EstimateSheet.Number.Decimal
import EstimateSheet.Number.Order

/-!
# Values

A formula has a number or a boolean as its value. Each can be used as the other.
-/

namespace EstimateSheet

/-- The value of a formula. -/
inductive Value where
  | number (x : Number)
  | boolean (b : Bool)
deriving DecidableEq

namespace Value

/-- The value used as a number: `true` is `1` and `false` is `0`. -/
def asNumber : Value → Number
  | number x => x
  | boolean true => 1
  | boolean false => 0

/-- The value used as a condition. A number holds unless it is zero or not a number. -/
def holds : Value → Bool
  | number x => !x.isZero && !x.isNaN
  | boolean b => b

protected def toString : Value → String
  | number x => x.toString
  | boolean b => if b then "true" else "false"

instance : ToString Value := ⟨Value.toString⟩

end Value

end EstimateSheet
