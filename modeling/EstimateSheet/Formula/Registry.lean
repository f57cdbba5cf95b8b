import EstimateSheet.Formula.Builtin

/-!
# Registries

A registry binds names to functions, each with the number of arguments it is to be called with.
Formulas are read and evaluated with the standard one, which binds every function to its own name.
-/

namespace EstimateSheet

/-- A function as it is registered. -/
structure RegistryEntry where
  arity : Arity
  function : Builtin
deriving DecidableEq

/-- Functions by name. A name is bound once. -/
structure Registry where
  entries : List (String × RegistryEntry)

namespace Registry

def find? (r : Registry) (name : String) : Option RegistryEntry := r.entries.lookup name

def contains (r : Registry) (name : String) : Bool := (r.find? name).isSome

/-- Bind a name, in place of what it was bound to. -/
def register (r : Registry) (name : String) (entry : RegistryEntry) : Registry :=
  ⟨(name, entry) :: r.entries.filter (·.1 != name)⟩

def size (r : Registry) : Nat := r.entries.length

/-- The names bound, in alphabetical order. -/
def names (r : Registry) : List String := (r.entries.map (·.1)).mergeSort (· ≤ ·)

/-- Every function under its own name. -/
def standard : Registry := ⟨Builtin.all.map fun f => (f.name, ⟨f.arity, f⟩)⟩

/-- A function may be called by the name with that many arguments. -/
def checkArity (name : String) (entry : RegistryEntry) (count : Nat) : Except FormulaError Unit :=
  if entry.arity.accepts count then .ok () else .error (.argumentCount name entry.arity count)

end Registry

end EstimateSheet
