import EstimateSheet.Document.Declaration
import EstimateSheet.Formula.Parser

/-!
# Documents

A document is a text with declarations in it. Each declaration in turn becomes a cell, whose formula
may read the cells before it, or a diagnostic that says why it did not; then it counts for
nothing, and its name can be declared again.

The names of the cells are kept three times: in the cells, in the index of the document, and while
the text is scanned as the names that a formula may read. They agree at every step.
-/

namespace EstimateSheet

/-- Why a declaration is left out. -/
inductive DeclarationError where
  | invalidName (name : String)
  | duplicate (name : String)
  | formula (error : FormulaError)
deriving DecidableEq

def DeclarationError.message : DeclarationError → String
  | invalidName name => s!"Invalid cell name: {name}"
  | duplicate name => s!"Duplicate cell name: {name}"
  | formula error => error.message

/-- A named formula. -/
structure Cell where
  name : String
  formula : String
  expr : Expr
  order : Nat

namespace Cell

/-- The cells a formula reads, in the order of first use. -/
def dependencies (c : Cell) : List String := c.expr.names

end Cell

/-- A declaration that was left out, and why. -/
structure Diagnostic where
  name : String
  formula : String
  error : DeclarationError

/-- The diagnostic as it is shown to the writer of the text. -/
def Diagnostic.message (d : Diagnostic) : String :=
  s!"Error parsing formula for {d.name}: {d.error.message}"

/-- Where the cells of a document stand, by name. An entry hides those after it. -/
structure Index where
  entries : List (String × Nat)

namespace Index

def empty : Index := ⟨[]⟩

def get? (x : Index) (name : String) : Option Nat := x.entries.lookup name

/-- Give a name a place, instead of the one it had. -/
def insert (x : Index) (name : String) (place : Nat) : Index := ⟨(name, place) :: x.entries⟩

/-- A name that is inserted has its new place, and the others keep theirs. -/
theorem get?_insert (x : Index) (name other : String) (place : Nat) :
    (x.insert name place).get? other = if other == name then some place else x.get? other := by
  rw [insert, get?, List.lookup_cons]
  split <;> simp_all [get?]

end Index

/-- Accepted cells and left out declarations, each in the order of the text. No two cells have the
same name, and the index knows each under its name and nothing else. -/
structure Document where
  cells : List Cell
  index : Index
  diagnostics : List Diagnostic
  nodup : (cells.map (·.name)).Nodup
  indexed : ∀ name, index.get? name = cells.findIdx? (·.name == name)

namespace Document

def empty : Document := ⟨[], .empty, [], List.nodup_nil, fun _ => rfl⟩

def names (d : Document) : List String := d.cells.map (·.name)

/-- The cell with a name. -/
def get? (d : Document) (name : String) : Option Cell :=
  (d.index.get? name).bind fun place => d.cells[place]?

/-- A cell has the name. -/
def contains (d : Document) (name : String) : Bool := (d.index.get? name).isSome

/-- The names that the document contains are those of its cells. -/
theorem contains_iff (d : Document) (name : String) :
    d.contains name = true ↔ name ∈ d.names := by
  rw [contains, d.indexed, List.findIdx?_isSome, names]
  simp [List.any_eq_true]

/-- The document with one more cell. -/
def push (d : Document) (decl : Declaration) (expr : Expr)
    (fresh : ¬ d.contains decl.name = true) : Document where
  cells := d.cells ++ [⟨decl.name, decl.formula, expr, d.cells.length⟩]
  index := d.index.insert decl.name d.cells.length
  diagnostics := d.diagnostics
  nodup := by
    rw [List.map_append, List.nodup_append]
    refine ⟨d.nodup, by simp, ?_⟩
    intro a ha b hb heq
    obtain rfl : b = decl.name := by simpa using hb
    exact fresh ((d.contains_iff _).2 (heq ▸ ha))
  indexed := by
    intro name
    rw [Index.get?_insert, d.indexed, List.findIdx?_append, List.findIdx?_singleton]
    by_cases h : decl.name = name
    · have hnone : d.cells.findIdx? (·.name == name) = none := by
        rw [← d.indexed, ← h]
        exact Option.not_isSome_iff_eq_none.1 fresh
      simp [h, hnone]
    · simp [h, Ne.symm h]

/-- One more cell adds its name. -/
theorem contains_push {d : Document} {decl : Declaration} {expr : Expr}
    (fresh : ¬ d.contains decl.name = true) (name : String) :
    (d.push decl expr fresh).contains name = (name == decl.name || d.contains name) := by
  simp only [contains, push, Index.get?_insert]
  split <;> simp_all

/-- The document with one more declaration that is left out. -/
def reject (d : Document) (decl : Declaration) (error : DeclarationError) : Document :=
  { d with diagnostics := d.diagnostics ++ [⟨decl.name, decl.formula, error⟩] }

/-- The expression of a declaration, if that can be one more cell. A name that is none is refused
first, then one that is taken, and last a formula without a tree. -/
def accept (d : Document) (decl : Declaration) (defined : Names) : Except DeclarationError Expr :=
  if !(Token.mk decl.name).isName then .error (.invalidName decl.name)
  else if d.contains decl.name then .error (.duplicate decl.name)
  else (Parser.parse defined decl.formula).mapError .formula

/-- A declaration is not accepted if its name is taken. -/
theorem fresh_of_accept {d : Document} {decl : Declaration} {defined : Names} {expr : Expr}
    (h : d.accept decl defined = .ok expr) : ¬ d.contains decl.name = true := by
  unfold accept at h
  split at h
  · cases h
  · split at h
    · cases h
    next hfresh => exact hfresh

end Document

/-- The document of a part of a text, with the names that a formula after it may read. -/
structure Scan where
  document : Document
  defined : Names
  defined_eq : ∀ name, defined.contains name = document.contains name

namespace Scan

def empty : Scan := ⟨.empty, .empty, fun _ => rfl⟩

/-- The document with one more declaration, which becomes a cell or a diagnostic. -/
def add (s : Scan) (decl : Declaration) : Scan :=
  match h : s.document.accept decl s.defined with
  | .ok expr =>
    { document := s.document.push decl expr (Document.fresh_of_accept h)
      defined := s.defined.insert decl.name
      defined_eq := by
        intro name
        rw [Names.contains_insert, s.defined_eq, Document.contains_push] }
  | .error e => { s with document := s.document.reject decl e, defined_eq := s.defined_eq }

end Scan

namespace Document

/-- The document of some declarations. -/
def ofDeclarations (decls : List Declaration) : Document := (decls.foldl Scan.add .empty).document

/-- The document of a text. -/
def parse (text : String) : Document := ofDeclarations (Declaration.scan text)

end Document

end EstimateSheet
