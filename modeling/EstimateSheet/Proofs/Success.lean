import EstimateSheet.Proofs.Parallel

/-!
# Runs that have results

A run has results if it carries out every iteration and each that it carries out has a row
(`Document.exists_results_iff`). Whether a pool has carried them out or not, the samples are then
the values that the cells have in the iterations (`Document.get?_of_simulateOn`).
-/

namespace EstimateSheet

namespace Simulation

section

variable {cells : List Cell} {seed : UInt64} {n i : Nat} {cancelled : Nat → Bool}

theorem attempt_eq_ok {row : List Number} :
    attempt cells seed n cancelled i = some (.ok row) ↔
      cancelled i = false ∧ runIteration cells seed i (emptyRow cells) = some (.ok row) := by
  unfold attempt
  split_ifs with hc
  · simp [hc]
  · simp [hc]

theorem inTurn_mono {item item' : Nat → Outcome (List Number)}
    (h : ∀ i row, item i = some (.ok row) → item' i = some (.ok row)) :
    ∀ {is : List Nat} {rows : List (List Number)}, inTurn item is = some (.ok rows) →
      inTurn item' is = some (.ok rows)
  | [], _, hr => hr
  | i :: is, rows, hr => by
    rw [inTurn] at hr ⊢
    rcases hi : item i with _ | e | row
    · simp [hi] at hr
    · simp [hi] at hr
    · rcases his : inTurn item is with _ | e | rows'
      · simp [hi, his] at hr
      · simp [hi, his] at hr
      · simp only [hi, his] at hr
        simp only [h i row hi, inTurn_mono h his, hr]

/-- A run that has results has them without being cancelled too. -/
theorem runSequential_uncancelled {columns : List (Array Number)}
    (h : runSequential cells seed n cancelled = some (.ok columns)) :
    runSequential cells seed n (fun _ => false) = some (.ok columns) := by
  have hrow : ∀ i row, attempt cells seed n cancelled i = some (.ok row) →
      attempt cells seed n (fun _ => false) i = some (.ok row) := by
    intro i row hok
    exact attempt_eq_ok.2 ⟨rfl, (attempt_eq_ok.1 hok).2⟩
  rw [runSequential_eq, map_eq_ok] at h ⊢
  obtain ⟨rows, hr, hcolumns⟩ := h
  exact ⟨rows, inTurn_mono hrow hr, hcolumns⟩

theorem exists_runSequential_iff :
    (∃ columns, runSequential cells seed n cancelled = some (.ok columns)) ↔
      ∀ i < n, ∃ row, attempt cells seed n cancelled i = some (.ok row) := by
  constructor
  · rintro ⟨columns, h⟩ i hi
    obtain ⟨row, hrow⟩ := runAlone_of_runSequential h i hi
    exact ⟨row, runAlone_eq_ok.1 hrow⟩
  · intro h
    obtain ⟨rows, hrows⟩ := inTurn_of_ok h
    exact ⟨_, by rw [runSequential_eq, hrows]; rfl⟩

end

theorem exists_of_isOk {α : Type} {outcome : Outcome α}
    (h : outcome.map Except.isOk = some true) : ∃ a, outcome = some (.ok a) := by
  rcases outcome with _ | e | a
  · cases h
  · cases h
  · exact ⟨a, rfl⟩

namespace Options

/-- The iterations that a run carries out: those of the schedule if a pool does, else all. -/
def carriedOut (options : Options) (schedule : List Nat) : List Nat :=
  if options.parallel then schedule else List.range options.iterations

variable {options : Options} {schedule : List Nat}

theorem carriedOut_sequential (h : options.parallel = false) :
    options.carriedOut schedule = List.range options.iterations := by
  rw [carriedOut, h, if_neg Bool.false_ne_true]

theorem carriedOut_parallel (h : options.parallel = true) :
    options.carriedOut schedule = schedule := by
  rw [carriedOut, h, if_pos rfl]

end Options

end Simulation

open Simulation

namespace Document

variable {d : Document} {options : Options} {cancelled : Nat → Bool} {schedule : List Nat}

variable (d options cancelled schedule) in
/-- Every iteration is carried out, and all that are carried out have rows. -/
structure Completes : Prop where
  rows : ∀ i ∈ options.carriedOut schedule, ∃ row,
    attempt d.cells options.seed options.iterations cancelled i = some (.ok row)
  all : ∀ i < options.iterations, i ∈ options.carriedOut schedule

theorem completes_of_attempts
    (h : ∀ i < options.iterations, ∃ row,
      attempt d.cells options.seed options.iterations cancelled i = some (.ok row))
    (hs : options.parallel = true → Possible d.cells options.seed options.iterations cancelled
      schedule) : d.Completes options cancelled schedule := by
  rcases hp : options.parallel with _ | _
  · have hcarried : options.carriedOut schedule = List.range options.iterations :=
      Options.carriedOut_sequential hp
    refine ⟨fun i hi => h i ?_, fun i hi => ?_⟩
    · rwa [hcarried, List.mem_range] at hi
    · rwa [hcarried, List.mem_range]
  · have hcarried : options.carriedOut schedule = schedule := Options.carriedOut_parallel hp
    have hrows := fun i hi => h i ((hs hp).lt i hi)
    exact ⟨hcarried.symm ▸ hrows, hcarried.symm ▸ (hs hp).mem_of_attempts hrows⟩

theorem simulateOn_eq_ok_iff {results : Results} :
    d.simulateOn options cancelled schedule = some (.ok results) ↔
      d.Completes options cancelled schedule ∧ ∃ columns,
        runSequential d.cells options.seed options.iterations cancelled = some (.ok columns) ∧
        d.results options columns = results := by
  rw [simulateOn, map_eq_ok]
  rcases hp : options.parallel with _ | _
  · have hcarried : options.carriedOut schedule = List.range options.iterations :=
      Options.carriedOut_sequential hp
    rw [if_neg Bool.false_ne_true]
    refine ⟨fun ⟨columns, hc, hr⟩ => ⟨⟨fun i hi => ?_, fun i hi => ?_⟩, columns, hc, hr⟩, And.right⟩
    · rw [hcarried, List.mem_range] at hi
      exact exists_runSequential_iff.1 ⟨columns, hc⟩ i hi
    · rwa [hcarried, List.mem_range]
  · have hcarried : options.carriedOut schedule = schedule := Options.carriedOut_parallel hp
    rw [if_pos rfl]
    constructor
    · rintro ⟨columns, hc, hr⟩
      obtain ⟨hrows, hall, hc⟩ := runParallel_eq_ok_iff.1 hc
      exact ⟨⟨by rwa [hcarried], by rwa [hcarried]⟩, columns, hc, hr⟩
    · rintro ⟨⟨hrows, hall⟩, columns, hc, hr⟩
      rw [hcarried] at hrows hall
      exact ⟨columns, runParallel_eq_ok_iff.2 ⟨hrows, hall, hc⟩, hr⟩

theorem exists_results_iff :
    (∃ results, d.simulateOn options cancelled schedule = some (.ok results)) ↔
      d.Completes options cancelled schedule := by
  refine ⟨fun ⟨_, h⟩ => (simulateOn_eq_ok_iff.1 h).1, fun h => ?_⟩
  obtain ⟨columns, hc⟩ := exists_runSequential_iff.2 fun i hi => h.rows i (h.all i hi)
  exact ⟨_, simulateOn_eq_ok_iff.2 ⟨h, columns, hc, rfl⟩⟩

/-- The samples of a cell are the values that it has in the iterations. -/
theorem get?_of_simulateOn {results : Results}
    (h : d.simulateOn options cancelled schedule = some (.ok results)) {k : Nat} {cell : Cell}
    (hk : d.cells[k]? = some cell) :
    ∃ column, results.get? cell.name = some column ∧ column.length = options.iterations ∧
      ∀ i < options.iterations, ∃ value, Yields d.cells options.seed i k value ∧
        column[i]? = some value.asNumber := by
  obtain ⟨-, columns, hc, rfl⟩ := simulateOn_eq_ok_iff.1 h
  obtain ⟨hlen, hcolumns⟩ := runSequential_ok d.nodup (runSequential_uncancelled hc)
  obtain ⟨column, hcolumn, hsize, hvalues⟩ := hcolumns k (List.getElem?_eq_some_iff.1 hk).1
  refine ⟨column.toList, (get?_results hlen hk hcolumn).2, hsize, fun i hi => ?_⟩
  obtain ⟨value, hy, hx⟩ := hvalues i hi
  exact ⟨value, hy, by rw [Array.getElem?_toList, hx]⟩

end Document

end EstimateSheet
