import EstimateSheet.Number.Arithmetic
import EstimateSheet.Number.Elementary
import EstimateSheet.Number.Order

/-!
# Operators

The binary operators of formulas, their signs, and how tightly each binds. All of them associate
to the left.
-/

namespace EstimateSheet

/-- Operators that compute a number. -/
inductive Arithmetic where
  | add
  | subtract
  | multiply
  | divide
  | remainder
  | power
deriving DecidableEq

/-- Operators that compare two numbers. -/
inductive Comparison where
  | greater
  | less
  | greaterEqual
  | lessEqual
  | equal
  | notEqual
deriving DecidableEq

/-- Operators that join two conditions. -/
inductive Connective where
  | and
  | or
deriving DecidableEq

/-- A binary operator. -/
inductive Operator where
  | arithmetic (op : Arithmetic)
  | comparison (op : Comparison)
  | connective (op : Connective)
deriving DecidableEq

/-- The result of an arithmetic operator. -/
def Arithmetic.apply (op : Arithmetic) (x y : Number) : Number :=
  match op with
  | add => x + y
  | subtract => x - y
  | multiply => x * y
  | divide => x / y
  | remainder => x % y
  | power => x.pow y

/-- Whether a comparison holds. A not-a-number is unequal to everything. -/
def Comparison.apply (op : Comparison) (x y : Number) : Bool :=
  match op with
  | greater => y.lt x
  | less => x.lt y
  | greaterEqual => y.le x
  | lessEqual => x.le y
  | equal => x.eq y
  | notEqual => !x.eq y

/-- Whether the left operand alone decides the connective. Then it is also the result. -/
def Connective.decidedBy (op : Connective) (left : Bool) : Bool :=
  match op with
  | and => !left
  | or => left

def Arithmetic.sign : Arithmetic → String
  | add => "+"
  | subtract => "-"
  | multiply => "*"
  | divide => "/"
  | remainder => "%"
  | power => "^"

def Comparison.sign : Comparison → String
  | greater => ">"
  | less => "<"
  | greaterEqual => ">="
  | lessEqual => "<="
  | equal => "=="
  | notEqual => "!="

def Connective.sign : Connective → String
  | and => "AND"
  | or => "OR"

namespace Operator

/-- How an operator is written. -/
def sign : Operator → String
  | arithmetic op => op.sign
  | comparison op => op.sign
  | connective op => op.sign

def all : List Operator :=
  [.arithmetic .add, .arithmetic .subtract, .arithmetic .multiply, .arithmetic .divide,
    .arithmetic .remainder, .arithmetic .power, .comparison .greater, .comparison .less,
    .comparison .greaterEqual, .comparison .lessEqual, .comparison .equal, .comparison .notEqual,
    .connective .and, .connective .or]

/-- The operator with the given sign. -/
def ofSign? (text : String) : Option Operator := all.find? (·.sign == text)

/-- The level of an operator: operands of a level are made of operators of the levels below. -/
def level : Operator → Nat
  | arithmetic .power => 1
  | arithmetic .multiply => 2
  | arithmetic .divide => 2
  | arithmetic .remainder => 2
  | arithmetic .add => 3
  | arithmetic .subtract => 3
  | comparison _ => 4
  | connective .and => 5
  | connective .or => 6

/-- The level of the operators that bind least. -/
def topLevel : Nat := 6

end Operator

end EstimateSheet
