import EstimateSheet.Document.Basic
import EstimateSheet.Proofs.ReadingComplete

/-!
# The formulas of the cells

A document grows by one declaration after another, and a declaration becomes a cell if its formula
can be read with the names of the cells that are there (`Scan.formulasRead_add`). So the formula of
any cell of a document reads names of cells before it, and what it calls may be called so
(`FormulasRead.reads_earlier`).
-/

namespace EstimateSheet

/-- Each formula has been read with the names of the cells before it. -/
def FormulasRead (cells : List Cell) : Prop :=
  ∀ (k : Nat) (cell : Cell), cells[k]? = some cell → ∃ names : Names,
    (∀ name, names.contains name = true ↔ name ∈ (cells.take k).map (·.name)) ∧
      Parser.parse names cell.formula = .ok cell.expr

namespace FormulasRead

variable {cells : List Cell}

theorem nil : FormulasRead [] := nofun

theorem concat {cell : Cell} {names : Names} (h : FormulasRead cells)
    (hn : ∀ name, names.contains name = true ↔ name ∈ cells.map (·.name))
    (hp : Parser.parse names cell.formula = .ok cell.expr) : FormulasRead (cells ++ [cell]) := by
  intro k c hk
  rcases Nat.lt_trichotomy k cells.length with hlt | rfl | hgt
  · rw [List.getElem?_append_left hlt] at hk
    rw [List.take_append_of_le_length (by omega)]
    exact h k c hk
  · rw [List.getElem?_concat_length, Option.some.injEq] at hk
    rw [List.take_left, ← hk]
    exact ⟨names, hn, hp⟩
  · have hlt := (List.getElem?_eq_some_iff.1 hk).1
    rw [List.length_append, List.length_singleton] at hlt
    omega

theorem reads_earlier (h : FormulasRead cells) {k : Nat} {cell : Cell}
    (hk : cells[k]? = some cell) :
    (∀ name ∈ cell.expr.occurrences, name ∈ (cells.take k).map (·.name)) ∧
      ∀ call ∈ cell.expr.calls, Registry.Accepts call := by
  obtain ⟨names, hn, hp⟩ := h k cell hk
  obtain ⟨tokens, -, hp⟩ := Parser.bind_eq_ok.1 hp
  obtain ⟨-, hdefined, hcallable, -⟩ := Parser.parseTokens_sound hp
  exact ⟨fun name hname => (hn name).1 (hdefined name hname), hcallable⟩

end FormulasRead

theorem Document.parse_of_accept {d : Document} {decl : Declaration} {defined : Names}
    {expr : Expr} (h : d.accept decl defined = .ok expr) :
    Parser.parse defined decl.formula = .ok expr := by
  unfold accept at h
  split_ifs at h
  rcases hp : Parser.parse defined decl.formula with e | expr'
  · simp [hp, Except.mapError] at h
  · simpa [hp, Except.mapError] using h

namespace Scan

/-- A declaration that is accepted becomes the last cell. -/
theorem cells_add {s : Scan} {decl : Declaration} {expr : Expr}
    (h : s.document.accept decl s.defined = .ok expr) :
    (s.add decl).document.cells =
      s.document.cells ++ [⟨decl.name, decl.formula, expr, s.document.cells.length⟩] := by
  unfold add
  split
  next expr' h' =>
    rw [h] at h'
    cases h'
    rfl
  next h' =>
    rw [h] at h'
    cases h'

theorem formulasRead_add {s : Scan} (h : FormulasRead s.document.cells) (decl : Declaration) :
    FormulasRead (s.add decl).document.cells := by
  unfold add
  split
  next expr hexpr =>
    refine h.concat (fun name => ?_) (Document.parse_of_accept hexpr)
    rw [s.defined_eq, Document.contains_iff, Document.names]
  next => exact h

theorem formulasRead_foldl : ∀ (decls : List Declaration) {s : Scan},
    FormulasRead s.document.cells → FormulasRead (decls.foldl add s).document.cells
  | [], _, h => h
  | decl :: decls, _, h => formulasRead_foldl decls (formulasRead_add h decl)

end Scan

/-- Every formula of a document has been read with the names of the cells before it. -/
theorem Document.formulasRead_parse (text : String) : FormulasRead (parse text).cells :=
  Scan.formulasRead_foldl _ .nil

end EstimateSheet
