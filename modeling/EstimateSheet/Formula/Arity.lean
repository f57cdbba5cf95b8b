/-!
# Arity

How many arguments a function takes.
-/

namespace EstimateSheet

/-- A least number of arguments and perhaps a greatest one. -/
structure Arity where
  least : Nat
  most : Option Nat
deriving DecidableEq

namespace Arity

def exactly (n : Nat) : Arity := ⟨n, some n⟩

def atLeast (n : Nat) : Arity := ⟨n, none⟩

/-- A call may have that many arguments. -/
def accepts (a : Arity) (count : Nat) : Bool := a.least ≤ count && a.most.all (count ≤ ·)

def describe (a : Arity) : String :=
  match a.most with
  | none => s!"at least {a.least}"
  | some most => if most = a.least then s!"exactly {most}" else s!"between {a.least} and {most}"

end Arity

end EstimateSheet
