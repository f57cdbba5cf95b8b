import EstimateSheet.Proofs.Sequential
import Mathlib.Data.List.Nodup

/-!
# The samples of a sequential run

A run of `n` iterations that are carried out in order and not cancelled has results if every cell
yields a value in each of them, and then the sample of cell `k` in iteration `i` is the value that
it yields there, as a number. Else the first cell that has no value decides, in the order of
iterations and then of cells (`simulateSequential_meaning`).
-/

namespace EstimateSheet

namespace Simulation

section

variable (cells : List Cell) (seed : UInt64)

/-- Every cell has a value in each of the first `n` iterations. -/
def AllYield (n : Nat) : Prop := ∀ i < n, ∀ k < cells.length, ∃ value, Yields cells seed i k value

/-- All cells have values in the iterations before `i`, and so have those before cell `k` in
iteration `i`. -/
def YieldBefore (i k : Nat) : Prop :=
  ∀ j l, l < cells.length → j < i ∨ j = i ∧ l < k → ∃ value, Yields cells seed j l value

/-- Cell `k` fails in iteration `i`, and that is the first evaluation without a value. -/
structure FirstFailure (i k : Nat) (cell : Cell) (error : FormulaError) : Prop where
  before : YieldBefore cells seed i k
  fails : Fails cells seed i k cell error

/-- Cell `k` hangs in iteration `i`, and that is the first evaluation without a value. -/
structure FirstHang (i k : Nat) : Prop where
  before : YieldBefore cells seed i k
  hangs : Hangs cells seed i k

end

variable {cells : List Cell} {seed : UInt64} {n : Nat}

theorem attempt_eq (i : Nat) : attempt cells seed n (fun _ => false) i =
    runIteration cells seed i (emptyRow cells) :=
  if_neg Bool.false_ne_true

section

variable (hn : (cells.map (·.name)).Nodup)

include hn

theorem attempt_of_yieldBefore {i k : Nat} (h : YieldBefore cells seed i k) :
    ∀ j < i, ∃ row, attempt cells seed n (fun _ => false) j = some (.ok row) := by
  intro j hj
  rw [attempt_eq]
  exact runIteration_of_yields hn length_emptyRow fun l hl => h j l hl (.inl hj)

theorem yieldBefore_of_attempt {i k : Nat}
    (h : ∀ j < i, ∃ row, attempt cells seed n (fun _ => false) j = some (.ok row))
    (hi : ∀ l < k, ∃ value, Yields cells seed i l value) : YieldBefore cells seed i k := by
  rintro j l hl (hj | ⟨rfl, hlk⟩)
  · obtain ⟨row, hrow⟩ := h j hj
    rw [attempt_eq] at hrow
    obtain ⟨value, hy, -⟩ := (runIteration_ok hn length_emptyRow hrow).2 l hl
    exact ⟨value, hy⟩
  · exact hi l hlk

theorem runSequential_of_allYield (h : AllYield cells seed n) :
    ∃ columns, runSequential cells seed n (fun _ => false) = some (.ok columns) := by
  have hitems : ∀ i < n, ∃ row, attempt cells seed n (fun _ => false) i = some (.ok row) := by
    intro i hi
    rw [attempt_eq]
    exact runIteration_of_yields hn length_emptyRow (h i hi)
  obtain ⟨rows, hrows⟩ := inTurn_of_ok hitems
  exact ⟨_, by rw [runSequential_eq, hrows]; rfl⟩

/-- The columns hold the values of the cells. -/
theorem runSequential_ok {columns : List (Array Number)}
    (h : runSequential cells seed n (fun _ => false) = some (.ok columns)) :
    columns.length = cells.length ∧ ∀ k < cells.length, ∃ column, columns[k]? = some column ∧
      column.size = n ∧ ∀ i < n, ∃ value, Yields cells seed i k value ∧
        column[i]? = some value.asNumber := by
  rw [runSequential_eq, map_eq_ok] at h
  obtain ⟨rows, hr, rfl⟩ := h
  obtain ⟨hlen, hrows⟩ := inTurn_ok hr
  refine ⟨by rw [length_foldl_pushRow]; exact List.length_replicate, fun k hk => ?_⟩
  have hcol := getElem?_columns hk hr
  obtain ⟨column, hcolumn, htoList⟩ := Option.map_eq_some_iff.1 hcol
  refine ⟨column, hcolumn, ?_, fun i hi => ?_⟩
  · rw [← Array.length_toList, htoList, List.length_map, hlen]
  · obtain ⟨row, hrow, hok⟩ := hrows i hi
    rw [attempt_eq] at hok
    obtain ⟨value, hy, hx⟩ := (runIteration_ok hn length_emptyRow hok).2 k hk
    refine ⟨value, hy, ?_⟩
    rw [← Array.getElem?_toList, htoList, List.getElem?_map, hrow, Option.map_some,
      List.getD_eq_getElem?_getD, hx, Option.getD_some]

theorem runSequential_error {e : RunError}
    (h : runSequential cells seed n (fun _ => false) = some (.error e)) :
    ∃ i < n, ∃ k cell error, FirstFailure cells seed i k cell error ∧
      e = .evaluation cell.name error := by
  obtain ⟨i, hi, hitem, hbefore⟩ := runSequential_stops h
  rw [attempt_eq] at hitem
  obtain ⟨k, cell, error, hf, rfl⟩ := runIteration_error hn length_emptyRow hitem
  obtain ⟨s, he⟩ := hf
  have hall := yieldBefore_of_attempt hn hbefore fun l hl => he.yields hl
  exact ⟨i, hi, k, cell, error, ⟨hall, s, he⟩, rfl⟩

theorem runSequential_none (h : runSequential cells seed n (fun _ => false) = none) :
    ∃ i < n, ∃ k, FirstHang cells seed i k := by
  rw [runSequential_eq, Option.map_eq_none_iff] at h
  obtain ⟨i, hi, hitem, hbefore⟩ := inTurn_none h
  rw [attempt_eq] at hitem
  obtain ⟨k, cell, he⟩ := runIteration_none hn length_emptyRow hitem
  have hall := yieldBefore_of_attempt hn hbefore fun l hl => he.yields hl
  exact ⟨i, hi, k, hall, cell, he⟩

theorem runSequential_of_firstFailure {i k : Nat} {cell : Cell} {error : FormulaError} (hi : i < n)
    (h : FirstFailure cells seed i k cell error) :
    runSequential cells seed n (fun _ => false) =
      some (.error (.evaluation cell.name error)) := by
  have hitem : attempt cells seed n (fun _ => false) i =
      some (.error (.evaluation cell.name error)) := by
    rw [attempt_eq]
    exact runIteration_of_fails hn length_emptyRow h.fails
  rw [runSequential_eq, inTurn_of_error hi hitem (attempt_of_yieldBefore hn h.before)]
  rfl

end

end Simulation

open Simulation

namespace Document

section

variable {d : Document} {options : Options} {n : Nat}

theorem names_results {columns : List (Array Number)} (h : columns.length = d.cells.length) :
    (d.results options columns).names = d.names := by
  have hfst : (d.cells.zip columns).map Prod.fst = d.cells := List.map_fst_zip (Nat.le_of_eq h.symm)
  calc (d.results options columns).names
      = d.cells.zipWith (fun cell _ => cell.name) columns := List.map_zipWith
    _ = ((d.cells.zip columns).map Prod.fst).map (·.name) := by
        rw [← List.map_uncurry_zip_eq_zipWith, List.map_map]
        rfl
    _ = d.names := by rw [hfst, names]

/-- The samples of the cell at place `k` are found under its name. -/
theorem get?_results {columns : List (Array Number)} {k : Nat} {cell : Cell} {column : Array Number}
    (h : columns.length = d.cells.length) (hcell : d.cells[k]? = some cell)
    (hcolumn : columns[k]? = some column) :
    (d.results options columns).samples[k]? = some ⟨cell.name, column.toList⟩ ∧
      (d.results options columns).get? cell.name = some column.toList := by
  have hk : (d.results options columns).samples[k]? = some ⟨cell.name, column.toList⟩ := by
    simp only [results, List.getElem?_zipWith, hcell, hcolumn]
  have hnodup : ((d.results options columns).samples.map (·.name)).Nodup := by
    have hnames : (d.results options columns).names = d.names := names_results h
    rw [Results.names] at hnames
    rw [hnames]
    exact d.nodup
  refine ⟨hk, ?_⟩
  have hmem := List.mem_of_getElem? hk
  rcases hf : (d.results options columns).samples.find? (·.name == cell.name) with _ | found
  · exact absurd (List.find?_eq_none.1 hf _ hmem) (by simp)
  · have hname : found.name = cell.name := by simpa using List.find?_some hf
    have heq := List.inj_on_of_nodup_map hnodup (List.mem_of_find?_eq_some hf) hmem hname
    rw [Results.get?, hf, heq, Option.map_some]

end

section

variable (d : Document) (options : Options) (n : Nat)

/-- Carry out `n` iterations in order, without being cancelled. -/
def simulateSequential : Outcome Results :=
  d.simulate { options with iterations := n, parallel := false } false

variable {d options n}

theorem simulateSequential_eq : d.simulateSequential options n =
    (runSequential d.cells options.seed n fun _ => false).map
      (·.map (d.results { options with iterations := n, parallel := false })) :=
  rfl

theorem simulateSequential_ok {results : Results}
    (h : d.simulateSequential options n = some (.ok results)) :
    results.names = d.names ∧ ∀ k cell, d.cells[k]? = some cell → ∃ column,
      results.samples[k]? = some ⟨cell.name, column⟩ ∧ results.get? cell.name = some column ∧
      column.length = n ∧ ∀ i < n, ∃ value, Yields d.cells options.seed i k value ∧
        column[i]? = some value.asNumber := by
  rw [simulateSequential_eq, map_eq_ok] at h
  obtain ⟨columns, hr, rfl⟩ := h
  obtain ⟨hlen, hcolumns⟩ := runSequential_ok d.nodup hr
  refine ⟨names_results hlen, fun k cell hcell => ?_⟩
  obtain ⟨column, hcolumn, hsize, hvalues⟩ := hcolumns k (List.getElem?_eq_some_iff.1 hcell).1
  obtain ⟨hsample, hget⟩ := get?_results hlen hcell hcolumn
  refine ⟨column.toList, hsample, hget, by rw [Array.length_toList, hsize], fun i hi => ?_⟩
  obtain ⟨value, hy, hx⟩ := hvalues i hi
  exact ⟨value, hy, by rw [Array.getElem?_toList, hx]⟩

theorem simulateSequential_of_allYield (h : AllYield d.cells options.seed n) :
    ∃ results, d.simulateSequential options n = some (.ok results) := by
  obtain ⟨columns, hcolumns⟩ := runSequential_of_allYield d.nodup h
  exact ⟨_, by rw [simulateSequential_eq, hcolumns]; rfl⟩

theorem allYield_of_simulateSequential {results : Results}
    (h : d.simulateSequential options n = some (.ok results)) :
    AllYield d.cells options.seed n := by
  intro i hi k hk
  obtain ⟨_, -, -, -, hvalues⟩ :=
    (simulateSequential_ok h).2 k _ (List.getElem?_eq_getElem hk)
  obtain ⟨value, hy, -⟩ := hvalues i hi
  exact ⟨value, hy⟩

theorem simulateSequential_of_firstFailure {i k : Nat} {cell : Cell} {error : FormulaError}
    (hi : i < n) (h : FirstFailure d.cells options.seed i k cell error) :
    d.simulateSequential options n = some (.error (.evaluation cell.name error)) := by
  rw [simulateSequential_eq, runSequential_of_firstFailure d.nodup hi h]
  rfl

theorem simulateSequential_error {e : RunError}
    (h : d.simulateSequential options n = some (.error e)) :
    ∃ i < n, ∃ k cell error, FirstFailure d.cells options.seed i k cell error ∧
      e = .evaluation cell.name error := by
  rw [simulateSequential_eq, map_eq_error] at h
  exact runSequential_error d.nodup h

theorem simulateSequential_none (h : d.simulateSequential options n = none) :
    ∃ i < n, ∃ k, FirstHang d.cells options.seed i k := by
  rw [simulateSequential_eq, Option.map_eq_none_iff] at h
  exact runSequential_none d.nodup h

/-- More iterations only make the columns longer. -/
theorem simulateSequential_extends {m : Nat} {short long : Results} (hle : n ≤ m)
    (hs : d.simulateSequential options n = some (.ok short))
    (hl : d.simulateSequential options m = some (.ok long)) {cell : Cell} (hcell : cell ∈ d.cells) :
    ∃ column, long.get? cell.name = some column ∧ short.get? cell.name = some (column.take n) := by
  obtain ⟨k, hk, rfl⟩ := List.getElem_of_mem hcell
  obtain ⟨column, -, hget, hlen, hvalues⟩ :=
    (simulateSequential_ok hl).2 k _ (List.getElem?_eq_getElem hk)
  obtain ⟨column', -, hget', hlen', hvalues'⟩ :=
    (simulateSequential_ok hs).2 k _ (List.getElem?_eq_getElem hk)
  refine ⟨column, hget, ?_⟩
  rw [hget', Option.some.injEq]
  refine List.ext_getElem? fun i => ?_
  rcases Nat.lt_or_ge i n with hi | hi
  · obtain ⟨value, hy, hx⟩ := hvalues i (by omega)
    obtain ⟨value', hy', hx'⟩ := hvalues' i hi
    rw [List.getElem?_take_of_lt hi, hx, hx', hy.unique hy']
  · rw [List.getElem?_eq_none (by omega), List.getElem?_eq_none (by rw [List.length_take]; omega)]

end

/-- A sequential run means what its iterations mean one by one. If every cell has a value in each of
the `n` iterations there are results, with a column for every cell in order, found under the name of
the cell, of length `n`, and with the values as numbers; else the first failure is the outcome, and
there is nothing if an evaluation before it does not end. So a longer run extends the columns, and
fails as a shorter one does. -/
theorem simulateSequential_meaning (d : Document) (options : Options) (n : Nat) :
    (AllYield d.cells options.seed n →
      ∃ results, d.simulateSequential options n = some (.ok results) ∧ results.names = d.names ∧
        ∀ k cell, d.cells[k]? = some cell → ∃ column,
          results.samples[k]? = some ⟨cell.name, column⟩ ∧ results.get? cell.name = some column ∧
          column.length = n ∧ ∀ i < n, ∃ value, Yields d.cells options.seed i k value ∧
            column[i]? = some value.asNumber) ∧
    (∀ i < n, ∀ k cell error, FirstFailure d.cells options.seed i k cell error →
      d.simulateSequential options n = some (.error (.evaluation cell.name error))) ∧
    (AllYield d.cells options.seed n ∨
      (∃ i < n, ∃ k cell error, FirstFailure d.cells options.seed i k cell error) ∨
      (∃ i < n, ∃ k, FirstHang d.cells options.seed i k) ∧
        d.simulateSequential options n = none) ∧
    (∀ m, n ≤ m →
      (∀ short long, d.simulateSequential options n = some (.ok short) →
        d.simulateSequential options m = some (.ok long) → ∀ cell ∈ d.cells, ∃ column,
          long.get? cell.name = some column ∧ short.get? cell.name = some (column.take n)) ∧
      (∀ e, d.simulateSequential options n = some (.error e) →
        d.simulateSequential options m = some (.error e))) := by
  refine ⟨fun h => ?_, fun i hi k cell error h => simulateSequential_of_firstFailure hi h, ?_,
    fun m hle => ⟨fun short long hs hl cell => simulateSequential_extends hle hs hl, fun e h => ?_⟩⟩
  · obtain ⟨results, hr⟩ := simulateSequential_of_allYield h
    exact ⟨results, hr, simulateSequential_ok hr⟩
  · rcases hr : d.simulateSequential options n with _ | e | results
    · exact .inr (.inr ⟨simulateSequential_none hr, rfl⟩)
    · obtain ⟨i, hi, k, cell, error, hf, -⟩ := simulateSequential_error hr
      exact .inr (.inl ⟨i, hi, k, cell, error, hf⟩)
    · exact .inl (allYield_of_simulateSequential hr)
  · obtain ⟨i, hi, k, cell, error, hf, rfl⟩ := simulateSequential_error h
    exact simulateSequential_of_firstFailure (by omega) hf

end Document

end EstimateSheet
