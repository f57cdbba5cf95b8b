import EstimateSheet.Proofs.Acceptance
import EstimateSheet.Proofs.EvalErrors
import EstimateSheet.Proofs.Parallel

/-!
# Runs of parsed documents

When a cell of a parsed document is evaluated, all cells before it are bound, and these are all that
its formula reads; and its calls have been checked. So of the errors that an evaluation can have
there is one left, that of a call of `percentile` (`Fails.calls_percentile`), and a run that ends
has results, or stops at such a cell, or has been cancelled (`simulateOn_parse`).
-/

namespace EstimateSheet

theorem Bindings.get?_zip {names : List String} {values : List Value} {name : String}
    (hl : values.length = names.length) (hn : name ∈ names) :
    (zip names values).get? name ≠ none := by
  intro h
  have hnone : ∀ entry ∈ names.zip values, (name != entry.1) = true := List.lookup_eq_none_iff.1 h
  rw [← List.map_fst_zip (Nat.le_of_eq hl.symm)] at hn
  obtain ⟨entry, hentry, rfl⟩ := List.mem_map.1 hn
  simpa using hnone entry hentry

namespace Simulation

variable {cells : List Cell} {seed : UInt64}

theorem Fails.calls_percentile {i k : Nat} {cell : Cell} {error : FormulaError}
    (hread : FormulasRead cells) (h : Fails cells seed i k cell error) :
    cell ∈ cells ∧ ∃ count x, ("percentile", count) ∈ cell.expr.calls ∧
      error = .percentileRange x := by
  obtain ⟨_, values, s, hr, hc, he⟩ := h
  obtain ⟨hearlier, hcalls⟩ := hread.reads_earlier hc
  have hlen : values.length = ((cells.take k).map (·.name)).length := by
    have hk := (List.getElem?_eq_some_iff.1 hc).1
    rw [hr.length_eq, List.length_map, List.length_take]
    omega
  refine ⟨List.mem_of_getElem? hc, ?_⟩
  cases cell.expr.accounted_of_eval he with
  | undefinedVariable hm hb => exact absurd hb (Bindings.get?_zip hlen (hearlier _ hm))
  | unknownFunction hm hf =>
    obtain ⟨entry, hentry, -⟩ := hcalls _ hm
    rw [hf] at hentry
    cases hentry
  | argumentCount hm hf ha =>
    obtain ⟨entry, hentry, hacc⟩ := hcalls _ hm
    rw [hf, Option.some.injEq] at hentry
    rw [← hentry, ha] at hacc
    cases hacc
  | percentileRange hm => exact ⟨_, _, hm, rfl⟩

variable (cells) in
/-- An error of a cell that calls `percentile`, or of a run that a check has seen cancelled. -/
def Expected (n : Nat) (cancelled : Nat → Bool) (e : RunError) : Prop :=
  (∃ cell ∈ cells, ∃ count x, ("percentile", count) ∈ cell.expr.calls ∧
    e = .evaluation cell.name (.percentileRange x)) ∨
  ∃ i, cancelled i = true ∧ ∃ completed, e = .cancelled completed n

variable {n : Nat} {cancelled : Nat → Bool} {e : RunError} (hn : (cells.map (·.name)).Nodup)
  (hread : FormulasRead cells)

include hn hread

theorem expected_of_runSequential (h : runSequential cells seed n cancelled = some (.error e)) :
    Expected cells n cancelled e := by
  obtain ⟨i, -, hitem, -⟩ := runSequential_stops h
  unfold attempt at hitem
  split_ifs at hitem with hc
  · cases hitem
    exact .inr ⟨i, hc, i, rfl⟩
  · obtain ⟨k, cell, error, hf, rfl⟩ := runIteration_error hn length_emptyRow hitem
    obtain ⟨hmem, count, x, hcall, rfl⟩ := hf.calls_percentile hread
    exact .inl ⟨cell, hmem, count, x, hcall, rfl⟩

theorem expected_of_runParallel {schedule : List Nat}
    (h : runParallel cells seed n cancelled schedule = some (.error e)) :
    Expected cells n cancelled e := by
  rcases runParallel_error hn h with ⟨i, -, -, -, k, cell, error, hf, rfl⟩ | ⟨i, -, hc, hcount⟩
  · obtain ⟨hmem, count, x, hcall, rfl⟩ := hf.calls_percentile hread
    exact .inl ⟨cell, hmem, count, x, hcall, rfl⟩
  · exact .inr ⟨i, hc, hcount⟩

end Simulation

open Simulation

namespace Document

theorem expected_of_simulateOn {text : String} {options : Options} {cancelled : Nat → Bool}
    {schedule : List Nat} {e : RunError}
    (h : (parse text).simulateOn options cancelled schedule = some (.error e)) :
    Expected (parse text).cells options.iterations cancelled e := by
  have hread := formulasRead_parse text
  have hn := (parse text).nodup
  rw [simulateOn, map_eq_error] at h
  split_ifs at h
  · exact expected_of_runParallel hn hread h
  · exact expected_of_runSequential hn hread h

/-- A run of a parsed document that ends has results, or a cell of the document that calls
`percentile` has failed with the error of such a call, or a check has seen the run cancelled. If no
cell calls `percentile` and the run is not cancelled there are results. -/
theorem simulateOn_parse {text : String} {options : Options} {cancelled : Nat → Bool}
    {schedule : List Nat} {outcome : Except RunError Results}
    (h : (parse text).simulateOn options cancelled schedule = some outcome) :
    ((∃ results, outcome = .ok results) ∨
      (∃ cell ∈ (parse text).cells, ∃ count x, ("percentile", count) ∈ cell.expr.calls ∧
        outcome = .error (.evaluation cell.name (.percentileRange x))) ∨
      ∃ i, cancelled i = true ∧
        ∃ completed, outcome = .error (.cancelled completed options.iterations)) ∧
    ((∀ cell ∈ (parse text).cells, ∀ count, ("percentile", count) ∉ cell.expr.calls) →
      (∀ i, cancelled i = false) → ∃ results, outcome = .ok results) := by
  rcases outcome with e | results
  · have hexpected := expected_of_simulateOn h
    refine ⟨.inr ?_, fun hcalls hc => ?_⟩
    · rcases hexpected with ⟨cell, hcell, count, x, hcall, rfl⟩ | ⟨i, hi, completed, rfl⟩
      · exact .inl ⟨cell, hcell, count, x, hcall, rfl⟩
      · exact .inr ⟨i, hi, completed, rfl⟩
    · rcases hexpected with ⟨cell, hcell, count, x, hcall, -⟩ | ⟨i, hi, -⟩
      · exact absurd hcall (hcalls cell hcell count)
      · rw [hc i] at hi
        cases hi
  · exact ⟨.inl ⟨results, rfl⟩, fun _ _ => ⟨results, rfl⟩⟩

/-- A text with a call of `percentile` whose first argument is too large. -/
theorem cells_parse_percentile : (parse "[p = percentile(101, 1)]").cells =
    [⟨"p", "percentile(101, 1)", .call "percentile" [.number 101, .number 1], 0⟩] := by
  have htokens : Token.scan "percentile(101, 1)" =
      .ok [⟨"percentile"⟩, ⟨"("⟩, ⟨"101"⟩, ⟨","⟩, ⟨"1"⟩, ⟨")"⟩] := by decide +kernel
  have h101 : Token.value ⟨"101"⟩ = 101 := by decide +kernel
  have h1 : Token.value ⟨"1"⟩ = 1 := by decide +kernel
  have hparse : Parser.parse .empty "percentile(101, 1)" =
      .ok (.call "percentile" [.number 101, .number 1]) := by
    rw [← h101, ← h1]
    exact Parser.parse_call htokens (by decide) (by decide) (by decide) ⟨_, rfl, rfl⟩
  have hcells := @Accepted.concat [] ⟨"p", "percentile(101, 1)"⟩ _ .nil (by decide) (by decide)
    hparse
  exact cells_parse hcells (by decide +kernel)

/-- Its run fails as a run of a parsed document may fail. -/
theorem simulateOn_parse_percentile :
    (parse "[p = percentile(101, 1)]").simulateOn { iterations := 1 } (fun _ => false) [0] =
      some (.error (.evaluation "p" (.percentileRange 101))) ∧
    ∃ cell ∈ (parse "[p = percentile(101, 1)]").cells, ∃ count x,
      ("percentile", count) ∈ cell.expr.calls ∧ RunError.evaluation "p" (.percentileRange 101) =
        .evaluation cell.name (.percentileRange x) := by
  have hrun : (parse "[p = percentile(101, 1)]").simulateOn { iterations := 1 } (fun _ => false)
      [0] = some (.error (.evaluation "p" (.percentileRange 101))) := by
    have hcolumns : runSequential (parse "[p = percentile(101, 1)]").cells 0 1 (fun _ => false) =
        some (.error (.evaluation "p" (.percentileRange 101))) := by
      rw [cells_parse_percentile]
      decide +kernel
    unfold simulateOn
    rw [if_neg Bool.false_ne_true, hcolumns]
    rfl
  refine ⟨hrun, ?_⟩
  rcases (simulateOn_parse hrun).1 with
    ⟨_, hok⟩ | ⟨cell, hcell, count, x, hcall, herror⟩ | ⟨_, hc, -⟩
  · cases hok
  · exact ⟨cell, hcell, count, x, hcall, Except.error.inj herror⟩
  · cases hc

end Document

end EstimateSheet
