import EstimateSheet.Formula.Operator
import EstimateSheet.Number.Decimal

/-!
# Expressions

The tree of a formula. Its text has no parentheses but those of calls, so it shows what a formula
computes with and not how it is grouped.
-/

namespace EstimateSheet

/-- An item put behind some others, unless it is among them. -/
def note {α : Type} [DecidableEq α] (found : List α) (a : α) : List α :=
  if a ∈ found then found else found ++ [a]

/-- The tree of a formula. -/
inductive Expr where
  | number (x : Number)
  | reference (name : String)
  | binary (op : Operator) (left right : Expr)
  | not (operand : Expr)
  | call (function : String) (args : List Expr)

namespace Expr

mutual

/-- The number of nodes on the longest way from the root to a leaf. -/
def height : Expr → Nat
  | number _ => 1
  | reference _ => 1
  | binary _ left right => max left.height right.height + 1
  | not operand => operand.height + 1
  | call _ args => heights args + 1

/-- The greatest height of some expressions, `0` if there are none. -/
def heights : List Expr → Nat
  | [] => 0
  | e :: es => max e.height (heights es)

end

mutual

/-- The text of an expression. -/
def repr : Expr → String
  | number x => x.toString
  | reference name => name
  | binary op left right => left.repr ++ " " ++ op.sign ++ " " ++ right.repr
  | not operand => "NOT " ++ operand.repr
  | call function args => function ++ "(" ++ reprs args ++ ")"

/-- The texts of some expressions, with commas between them. -/
def reprs : List Expr → String
  | [] => ""
  | [e] => e.repr
  | e :: es => e.repr ++ ", " ++ reprs es

end

mutual

/-- The names an expression reads, from left to right, each as often as it stands there. -/
def occurrences : Expr → List String
  | number _ => []
  | reference name => [name]
  | binary _ left right => left.occurrences ++ right.occurrences
  | not operand => operand.occurrences
  | call _ args => occurrencesAll args

def occurrencesAll : List Expr → List String
  | [] => []
  | e :: es => e.occurrences ++ occurrencesAll es

end

/-- The names an expression reads, each once, in the order of first use. -/
def names (e : Expr) : List String := e.occurrences.eraseDups

mutual

/-- The names found so far, and then those that the expression reads and that are not there yet. A
walk that starts without names finds the `names` of the tree. -/
def collect : Expr → List String → List String
  | number _, found => found
  | reference name, found => note found name
  | binary _ left right, found => right.collect (left.collect found)
  | not operand, found => operand.collect found
  | call _ args, found => collectAll args found

def collectAll : List Expr → List String → List String
  | [], found => found
  | e :: es, found => collectAll es (e.collect found)

end

end Expr

end EstimateSheet
