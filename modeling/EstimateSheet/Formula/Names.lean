/-!
# Defined names

The names a formula may read. A document defines them one by one as its cells are accepted.
-/

namespace EstimateSheet

/-- A list of names, each of which is there once. -/
structure Names where
  toList : List String
  nodup : toList.Nodup

namespace Names

def empty : Names := ⟨[], List.nodup_nil⟩

def contains (d : Names) (name : String) : Bool := d.toList.contains name

def size (d : Names) : Nat := d.toList.length

/-- The names with one more, which may be among them already. -/
def insert (d : Names) (name : String) : Names :=
  if h : d.contains name then d
  else ⟨name :: d.toList, List.nodup_cons.2 ⟨by simpa [contains] using h, d.nodup⟩⟩

def extend (d : Names) (names : List String) : Names := names.foldl insert d

/-- The names of a list, which may hold some more than once. -/
def ofList (names : List String) : Names := empty.extend names

/-- Inserting a name defines it and changes nothing else. -/
theorem contains_insert (d : Names) (name other : String) :
    (d.insert name).contains other = (other == name || d.contains other) := by
  unfold insert
  split
  next h =>
    by_cases heq : other = name
    · subst heq; simp [h]
    · simp [heq]
  next h => rw [Bool.eq_iff_iff]; simp [contains]

end Names

end EstimateSheet
