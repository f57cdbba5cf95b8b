import EstimateSheet.Proofs.Agreement
import EstimateSheet.Proofs.Dependencies
import EstimateSheet.Proofs.Success

/-!
# Deterministic cells

A cell is deterministic if neither its formula nor that of any cell it depends on, directly or
through others, calls a function that draws random words. Two iterations, of runs with any seeds,
bind the deterministic cells alike (`Reached.agreeOn_fixed`), so such a cell has one value in all of
them (`Document.constant_of_deterministic`).
-/

namespace EstimateSheet

open Simulation

namespace Document

section

variable (d : Document)

/-- No random words are drawn for the cell or for any that it depends on. -/
def Deterministic (cell : Cell) : Prop :=
  ∀ other, Relation.ReflTransGen d.DependsOn cell other → other.expr.isStochastic = false

/-- A deterministic cell has the name. -/
def Fixed (name : String) : Prop := ∃ cell ∈ d.cells, cell.name = name ∧ d.Deterministic cell

variable {d} {cell other : Cell}

theorem deterministic_iff : d.Deterministic cell ↔
    cell.expr.isStochastic = false ∧ ∀ other, d.DependsOn cell other → d.Deterministic other := by
  constructor
  · intro h
    exact ⟨h cell .refl, fun other ho last hlast => h last (.head ho hlast)⟩
  · rintro ⟨hcell, hothers⟩ last hlast
    rcases Relation.ReflTransGen.cases_head hlast with rfl | ⟨other, ho, hlast⟩
    · exact hcell
    · exact hothers other ho last hlast

theorem fixed_name_iff (hc : cell ∈ d.cells) : d.Fixed cell.name ↔ d.Deterministic cell := by
  constructor
  · rintro ⟨other, ho, hname, hd⟩
    rwa [← eq_of_name_eq ho hc hname]
  · intro hd
    exact ⟨cell, hc, rfl, hd⟩

end

theorem Deterministic.fixed {text : String} {cell : Cell} (hd : (parse text).Deterministic cell)
    {k : Nat} (hk : (parse text).cells[k]? = some cell) :
    ∀ name ∈ cell.expr.occurrences, (parse text).Fixed name := by
  intro name hname
  have hdep : name ∈ cell.dependencies := Cell.mem_dependencies.2 hname
  obtain ⟨j, -, other, hj, rfl⟩ := dependencies_earlier hk hdep
  have ho : other ∈ (parse text).cells := List.mem_of_getElem? hj
  have hread : (parse text).DependsOn cell other := ⟨List.mem_of_getElem? hk, ho, hdep⟩
  exact ⟨other, ho, rfl, (deterministic_iff.1 hd).2 other hread⟩

end Document

open Document

namespace Simulation

section

variable {text : String} {seed seed' : UInt64} {i i' k : Nat}

theorem evalCell_of_deterministic {cell : Cell} {values values' : List Value} {s s' r r' : Source}
    {value value' : Value} (hd : (parse text).Deterministic cell)
    (hk : (parse text).cells[k]? = some cell)
    (hb : (bound (parse text).cells k values).AgreeOn (parse text).Fixed
      (bound (parse text).cells k values'))
    (h : evalCell (parse text).cells k cell values s = some (.ok value, r))
    (h' : evalCell (parse text).cells k cell values' s' = some (.ok value', r')) :
    value = value' := by
  have heval := cell.expr.eval_congr fun name hname => hb name (hd.fixed hk name hname)
  have hstill := cell.expr.still_eval (bound (parse text).cells k values')
    (deterministic_iff.1 hd).1
  rw [evalCell_eq, heval] at h
  rw [evalCell_eq, (hstill.run_eq h).2 s'] at h'
  cases h'
  rfl

/-- Wherever two iterations have come to the same cell, they have the same values of the
deterministic cells. -/
theorem Reached.agreeOn_fixed {values values' : List Value} {s s' : Source}
    (h : Reached (parse text).cells seed i k values s)
    (h' : Reached (parse text).cells seed' i' k values' s') :
    (bound (parse text).cells k values).AgreeOn (parse text).Fixed
      (bound (parse text).cells k values') := by
  have hn := (parse text).nodup
  induction h generalizing values' s' with
  | start =>
    cases h'
    exact fun _ _ => rfl
  | @next k values s cell value r hr hk he ih =>
    obtain _ | ⟨hr', hk', he'⟩ := h'
    rw [hk, Option.some.injEq] at hk'
    subst hk'
    have hb := ih hr'
    rw [hr.bound_succ hn hk, hr'.bound_succ hn hk]
    by_cases hd : (parse text).Deterministic cell
    · rw [evalCell_of_deterministic hd hk hb he he']
      exact hb.set _ _
    · -- the values may differ, but no deterministic cell has this name
      have hname : ¬ (parse text).Fixed cell.name := by
        rwa [fixed_name_iff (List.mem_of_getElem? hk)]
      have hunbound := Bindings.AgreeOn.of_set hname
      exact ((hunbound _ _).trans hb).trans (hunbound _ _).symm

theorem Yields.eq_of_deterministic {cell : Cell} {value value' : Value}
    (hd : (parse text).Deterministic cell) (hk : (parse text).cells[k]? = some cell)
    (h : Yields (parse text).cells seed i k value)
    (h' : Yields (parse text).cells seed' i' k value') : value = value' := by
  obtain ⟨_, _, values, s, hr, hc, he⟩ := h
  obtain ⟨_, _, values', s', hr', hc', he'⟩ := h'
  rw [hk, Option.some.injEq] at hc hc'
  subst hc hc'
  exact evalCell_of_deterministic hd hk (hr.agreeOn_fixed hr') he he'

end

end Simulation

namespace Document

/-- A deterministic cell has one and the same sample in every iteration of every run that has
results, whatever the seed and the number of iterations are and in whatever way they are carried
out. -/
theorem constant_of_deterministic {text : String} {cell : Cell} (hc : cell ∈ (parse text).cells)
    (hd : (parse text).Deterministic cell) :
    ∃ x, ∀ (options : Options) (cancelled : Nat → Bool) (schedule : List Nat) (results : Results),
      (parse text).simulateOn options cancelled schedule = some (.ok results) →
      results.get? cell.name = some (List.replicate options.iterations x) := by
  obtain ⟨k, hk⟩ := List.mem_iff_getElem?.1 hc
  have hsame : ∃ x, ∀ seed i value, Yields (parse text).cells seed i k value →
      value.asNumber = x := by
    by_cases hex : ∃ seed i value, Yields (parse text).cells seed i k value
    · obtain ⟨seed, i, value, hy⟩ := hex
      exact ⟨value.asNumber, fun _ _ _ hy' => by rw [hy'.eq_of_deterministic hd hk hy]⟩
    · exact ⟨0, fun seed i value hy => absurd ⟨seed, i, value, hy⟩ hex⟩
  obtain ⟨x, hx⟩ := hsame
  refine ⟨x, fun options cancelled schedule results h => ?_⟩
  obtain ⟨column, hget, hlen, hvalues⟩ := get?_of_simulateOn h hk
  rw [hget, Option.some.injEq]
  refine List.eq_replicate_iff.2 ⟨hlen, fun y hy => ?_⟩
  obtain ⟨i, hi⟩ := List.mem_iff_getElem?.1 hy
  have hlt : i < options.iterations := hlen ▸ (List.getElem?_eq_some_iff.1 hi).1
  obtain ⟨value, hyields, hvalue⟩ := hvalues i hlt
  rw [hi, Option.some.injEq] at hvalue
  rw [hvalue, hx _ _ _ hyields]

/-- Cells that draw random words stand on both sides of a deterministic cell. -/
theorem constant_of_deterministic_uniform :
    let d := parse "[k = 2]\n[u = uniform(0, 1)]\n[b = k]\n[v = uniform(0, 1)]"
    let cell : Cell := ⟨"b", "k", .reference "k", 2⟩
    cell ∈ d.cells ∧ d.Deterministic cell ∧ ∃ x results,
      d.simulateOn { iterations := 2, seed := 7 } (fun _ => false) [] = some (.ok results) ∧
      results.get? "b" = some [x, x] := by
  intro d cell
  have hcells := cells_parse_uniform
  have hc : cell ∈ d.cells := by
    rw [hcells]
    simp [cell]
  have hk : (⟨"k", "2", .number 2, 0⟩ : Cell) ∈ d.cells := by
    rw [hcells]
    simp
  have hd : d.Deterministic cell := by
    refine deterministic_iff.2 ⟨rfl, fun other hother => ?_⟩
    have hname : other.name = "k" := by
      simpa [cell, Expr.occurrences] using Cell.mem_dependencies.1 hother.name_mem
    rw [eq_of_name_eq hother.other_mem hk hname]
    refine deterministic_iff.2 ⟨rfl, fun last hlast => ?_⟩
    have hread := Cell.mem_dependencies.1 hlast.name_mem
    simp [Expr.occurrences] at hread
  have hok : (d.simulateOn { iterations := 2, seed := 7 } (fun _ => false) []).map Except.isOk =
      some true := by
    unfold simulateOn
    rw [hcells]
    decide +kernel
  obtain ⟨results, hresults⟩ := exists_of_isOk hok
  obtain ⟨x, hx⟩ := constant_of_deterministic hc hd
  exact ⟨hc, hd, x, results, hresults, hx _ _ _ _ hresults⟩

end Document

end EstimateSheet
