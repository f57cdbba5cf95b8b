import EstimateSheet.Proofs.Acceptance
import Mathlib.Logic.Relation

/-!
# Dependencies

A formula reads names of cells before it only, so a cell depends on earlier cells
(`dependencies_earlier`), and no cell depends on itself through others (`not_dependsOn_self`).
-/

namespace EstimateSheet

theorem Cell.mem_dependencies {cell : Cell} {name : String} :
    name ∈ cell.dependencies ↔ name ∈ cell.expr.occurrences := by
  rw [dependencies, Expr.names, List.mem_eraseDups]

namespace Document

/-- The formula of a cell of the document reads the name of another. -/
structure DependsOn (d : Document) (cell other : Cell) : Prop where
  mem : cell ∈ d.cells
  other_mem : other ∈ d.cells
  name_mem : other.name ∈ cell.dependencies

theorem eq_of_name_eq {d : Document} {cell other : Cell} (hc : cell ∈ d.cells)
    (ho : other ∈ d.cells) (h : cell.name = other.name) : cell = other :=
  List.inj_on_of_nodup_map d.nodup hc ho h

variable {text : String}

theorem dependencies_earlier {k : Nat} {cell : Cell} (hk : (parse text).cells[k]? = some cell)
    {name : String} (hn : name ∈ cell.dependencies) :
    ∃ j < k, ∃ earlier, (parse text).cells[j]? = some earlier ∧ earlier.name = name := by
  rw [Cell.mem_dependencies] at hn
  have hname := ((formulasRead_parse text).reads_earlier hk).1 name hn
  obtain ⟨earlier, hmem, rfl⟩ := List.mem_map.1 hname
  obtain ⟨j, hj, rfl⟩ := List.mem_take_iff_getElem.1 hmem
  exact ⟨j, by omega, _, List.getElem?_eq_getElem (by omega), rfl⟩

theorem reads_names {cell : Cell} (hc : cell ∈ (parse text).cells) {name : String}
    (hn : name ∈ cell.expr.occurrences) : name ∈ (parse text).names := by
  obtain ⟨k, hk⟩ := List.mem_iff_getElem?.1 hc
  obtain ⟨j, -, earlier, hj, rfl⟩ := dependencies_earlier hk (Cell.mem_dependencies.2 hn)
  exact List.mem_map_of_mem (List.mem_of_getElem? hj)

theorem DependsOn.order_lt {cell other : Cell} (h : (parse text).DependsOn cell other) :
    other.order < cell.order := by
  obtain ⟨hc, ho, hn⟩ := h
  have horder := (accepted_parse text).order_eq
  obtain ⟨k, hk⟩ := List.mem_iff_getElem?.1 hc
  obtain ⟨j, hj, earlier, hearlier, heq⟩ := dependencies_earlier hk hn
  obtain rfl := eq_of_name_eq (List.mem_of_getElem? hearlier) ho heq
  rw [horder k cell hk, horder j earlier hearlier]
  exact hj

theorem not_dependsOn_self (cell : Cell) :
    ¬ Relation.TransGen (parse text).DependsOn cell cell := by
  have hlt : ∀ other, Relation.TransGen (parse text).DependsOn cell other →
      other.order < cell.order := by
    intro other h
    induction h with
    | single h => exact h.order_lt
    | tail _ h ih => exact Nat.lt_trans h.order_lt ih
  exact fun h => Nat.lt_irrefl _ (hlt cell h)

end Document

end EstimateSheet
