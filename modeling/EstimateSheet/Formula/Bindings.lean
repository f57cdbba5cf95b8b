import EstimateSheet.Formula.Value

/-!
# Bindings

The values of the names a formula can read.
-/

namespace EstimateSheet

/-- Names and their values, in the order they were first bound. -/
structure Bindings where
  entries : List (String × Value)

namespace Bindings

def empty : Bindings := ⟨[]⟩

def get? (b : Bindings) (name : String) : Option Value := b.entries.lookup name

def size (b : Bindings) : Nat := b.entries.length

/-- Give a name a value, in place of the one it had. -/
def set (b : Bindings) (name : String) (value : Value) : Bindings := ⟨bind b.entries⟩
where
  bind : List (String × Value) → List (String × Value)
    | [] => [(name, value)]
    | entry :: entries =>
      if entry.1 == name then (name, value) :: entries else entry :: bind entries

/-- Looking a name up after one has been bound. -/
theorem lookup_bind (name other : String) (value : Value) (entries : List (String × Value)) :
    (set.bind name value entries).lookup other =
      if other == name then some value else entries.lookup other := by
  induction entries with
  | nil => cases h : other == name <;> simp [set.bind, List.lookup_cons, h]
  | cons entry entries ih =>
    obtain ⟨key, old⟩ := entry
    cases hk : key == name
    · simp only [set.bind, hk, Bool.false_eq_true, if_false, List.lookup_cons, ih]
      cases h : other == key
      · rfl
      · rw [beq_iff_eq] at h
        simp [h, hk]
    · rw [beq_iff_eq] at hk
      cases h : other == name <;> simp [set.bind, List.lookup_cons, hk, h]

/-- A name that is bound has the value it was bound to last, and the others keep theirs. -/
theorem get?_set (b : Bindings) (name other : String) (value : Value) :
    (b.set name value).get? other = if other == name then some value else b.get? other :=
  lookup_bind name other value b.entries

end Bindings

end EstimateSheet
