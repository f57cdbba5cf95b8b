import EstimateSheet.Proofs.Trace
import EstimateSheet.Simulation.Run
import Mathlib.Tactic.SplitIfs

/-!
# Iterations in order

The iterations of a sequential run share a row and add it to the columns after each. This comes to
the same as giving each a row of its own, keeping the rows until all have ended (`inTurn`) and then
making columns of them (`runFrom_eq`): no slot is left as another iteration filled it.

Column `k` holds the samples at place `k` of the rows (`getElem?_foldl_pushRow`).
-/

namespace EstimateSheet

namespace Simulation

/-- What items give that are carried out one after the other until one has no row. -/
def inTurn (item : Nat → Outcome (List Number)) : List Nat → Outcome (List (List Number))
  | [] => some (.ok [])
  | i :: rest =>
    match item i with
    | none => none
    | some (.error e) => some (.error e)
    | some (.ok row) =>
      match inTurn item rest with
      | some (.ok rows) => some (.ok (row :: rows))
      | failure => failure

section Outcomes

variable {α β : Type} {f : α → β} {outcome : Outcome α}

theorem map_eq_ok {b : β} :
    outcome.map (·.map f) = some (.ok b) ↔ ∃ a, outcome = some (.ok a) ∧ f a = b := by
  rcases outcome with _ | e | a
  · simp
  · simp [Except.map]
  · simp [Except.map]

theorem map_eq_error {e : RunError} :
    outcome.map (·.map f) = some (.error e) ↔ outcome = some (.error e) := by
  rcases outcome with _ | e' | a
  · simp
  · simp [Except.map]
  · simp [Except.map]

end Outcomes

section Rows

theorem fillRow_length : ∀ {cells : List Cell} {slots row : List Number} {b : Bindings}
    {s : Source}, fillRow cells slots b s = some (.ok row) → row.length = slots.length
  | [], slots, row, b, s, h => by
    simp only [fillRow, Option.some.injEq, Except.ok.injEq] at h
    rw [h]
  | cell :: cells, [], row, b, s, h => by
    simp only [fillRow, Option.some.injEq, Except.ok.injEq] at h
    rw [h]
  | cell :: cells, slot :: slots, row, b, s, h => by
    rw [fillRow] at h
    rcases he : (cell.expr.eval b).run s with _ | ⟨error | value, rest⟩
    · simp [he] at h
    · simp [he] at h
    · simp only [he] at h
      rcases hf : fillRow cells slots (b.set cell.name value) rest with _ | error | row'
      · simp [hf] at h
      · simp [hf] at h
      · simp only [hf, Option.some.injEq, Except.ok.injEq] at h
        rw [← h, List.length_cons, List.length_cons, fillRow_length hf]

/-- What the slots held before does not matter if there is a cell for each. -/
theorem fillRow_slots : ∀ {cells : List Cell} {slots slots' : List Number} {b : Bindings}
    {s : Source}, slots.length = cells.length → slots'.length = cells.length →
    fillRow cells slots b s = fillRow cells slots' b s
  | [], [], [], _, _, _, _ => rfl
  | cell :: cells, slot :: slots, slot' :: slots', b, s, h, h' => by
    rw [fillRow, fillRow]
    rcases (cell.expr.eval b).run s with _ | ⟨error | value, rest⟩
    · rfl
    · rfl
    · simp only [fillRow_slots (Nat.succ.inj h) (Nat.succ.inj h')]

variable {cells : List Cell} {seed : UInt64} {i : Nat} {row : List Number}

theorem length_emptyRow : (emptyRow cells).length = cells.length := List.length_replicate

theorem runIteration_row (h : row.length = cells.length) :
    runIteration cells seed i row = runIteration cells seed i (emptyRow cells) :=
  fillRow_slots h length_emptyRow

theorem runIteration_length {row' : List Number} (h : row.length = cells.length)
    (hr : runIteration cells seed i row = some (.ok row')) : row'.length = cells.length := by
  rw [fillRow_length hr, h]

end Rows

section Columns

theorem getElem?_pushRow : ∀ {columns : List (Array Number)} {row : List Number} (k : Nat),
    row.length = columns.length →
    (pushRow columns row)[k]? = columns[k]?.map (·.push (row.getD k 0))
  | [], [], _, _ => rfl
  | _ :: _, _ :: _, 0, _ => rfl
  | _ :: _, _ :: _, k + 1, h => getElem?_pushRow k (Nat.succ.inj h)

theorem length_pushRow : ∀ (columns : List (Array Number)) (row : List Number),
    (pushRow columns row).length = columns.length
  | [], _ => rfl
  | _ :: _, [] => rfl
  | _ :: columns, _ :: row => congrArg (· + 1) (length_pushRow columns row)

theorem length_foldl_pushRow (columns : List (Array Number)) (rows : List (List Number)) :
    (rows.foldl pushRow columns).length = columns.length := by
  induction rows generalizing columns with
  | nil => rfl
  | cons row rows ih => rw [List.foldl_cons, ih, length_pushRow]

theorem getElem?_foldl_pushRow {columns : List (Array Number)} {rows : List (List Number)} (k : Nat)
    (h : ∀ row ∈ rows, row.length = columns.length) :
    (rows.foldl pushRow columns)[k]?.map Array.toList =
      columns[k]?.map (·.toList ++ rows.map (·.getD k 0)) := by
  induction rows generalizing columns with
  | nil => simp
  | cons row rows ih =>
    obtain ⟨hrow, hrows⟩ := List.forall_mem_cons.1 h
    rw [List.foldl_cons, ih fun r hr => by rw [length_pushRow, hrows r hr],
      getElem?_pushRow k hrow, Option.map_map]
    simp [Function.comp_def]

end Columns

section InTurn

variable {item : Nat → Outcome (List Number)} {n m : Nat}

theorem inTurn_append (is js : List Nat) : inTurn item (is ++ js) =
    match inTurn item is with
    | some (.ok rows) =>
      match inTurn item js with
      | some (.ok rows') => some (.ok (rows ++ rows'))
      | failure => failure
    | failure => failure := by
  induction is with
  | nil =>
    simp only [List.nil_append, inTurn]
    rcases inTurn item js with _ | error | rows <;> rfl
  | cons i is ih =>
    simp only [List.cons_append, inTurn, ih]
    rcases item i with _ | error | row
    · rfl
    · rfl
    · rcases inTurn item is with _ | error | rows
      · rfl
      · rfl
      · rcases inTurn item js with _ | error | rows' <;> rfl

/-- The rows of the items up to the first that has none. -/
theorem inTurn_range_succ (n : Nat) : inTurn item (List.range (n + 1)) =
    match inTurn item (List.range n) with
    | some (.ok rows) =>
      match item n with
      | some (.ok row) => some (.ok (rows ++ [row]))
      | some (.error e) => some (.error e)
      | none => none
    | failure => failure := by
  rw [List.range_succ, inTurn_append]
  rcases inTurn item (List.range n) with _ | error | rows
  · rfl
  · rfl
  · simp only [inTurn]
    rcases item n with _ | error | row <;> rfl

theorem inTurn_ok : ∀ {n : Nat} {rows : List (List Number)},
    inTurn item (List.range n) = some (.ok rows) →
    rows.length = n ∧ ∀ i < n, ∃ row, rows[i]? = some row ∧ item i = some (.ok row)
  | 0, rows, h => by
    cases h
    exact ⟨rfl, fun i hi => absurd hi (Nat.not_lt_zero i)⟩
  | n + 1, rows, h => by
    rw [inTurn_range_succ] at h
    rcases hr : inTurn item (List.range n) with _ | error | rows'
    · simp [hr] at h
    · simp [hr] at h
    · rcases hi : item n with _ | error | row
      · simp [hr, hi] at h
      · simp [hr, hi] at h
      · simp only [hr, hi, Option.some.injEq, Except.ok.injEq] at h
        obtain ⟨hlen, hrows⟩ := inTurn_ok hr
        subst h
        refine ⟨by simp [hlen], fun i hlt => ?_⟩
        rcases Nat.lt_or_eq_of_le (Nat.le_of_lt_succ hlt) with hlt | rfl
        · obtain ⟨row', hrow', hi'⟩ := hrows i hlt
          exact ⟨row', by rw [List.getElem?_append_left (by omega), hrow'], hi'⟩
        · exact ⟨row, by rw [← hlen, List.getElem?_concat_length], hi⟩

theorem inTurn_of_ok : ∀ {n : Nat}, (∀ i < n, ∃ row, item i = some (.ok row)) →
    ∃ rows, inTurn item (List.range n) = some (.ok rows)
  | 0, _ => ⟨[], rfl⟩
  | n + 1, h => by
    obtain ⟨rows, hrows⟩ := inTurn_of_ok fun i hi => h i (Nat.lt_succ_of_lt hi)
    obtain ⟨row, hrow⟩ := h n (Nat.lt_succ_self n)
    exact ⟨rows ++ [row], by simp only [inTurn_range_succ, hrows, hrow]⟩

/-- More items change nothing if some item has no row. -/
theorem inTurn_of_le (h : ∀ rows, inTurn item (List.range n) ≠ some (.ok rows)) (hle : n ≤ m) :
    inTurn item (List.range m) = inTurn item (List.range n) := by
  induction hle with
  | refl => rfl
  | step _ ih =>
    rw [inTurn_range_succ, ih]
    rcases hr : inTurn item (List.range n) with _ | error | rows
    · rfl
    · rfl
    · exact absurd hr (h rows)

theorem inTurn_error : ∀ {n : Nat} {e : RunError}, inTurn item (List.range n) = some (.error e) →
    ∃ i < n, item i = some (.error e) ∧ ∀ j < i, ∃ row, item j = some (.ok row)
  | n + 1, e, h => by
    rw [inTurn_range_succ] at h
    rcases hr : inTurn item (List.range n) with _ | error | rows
    · simp [hr] at h
    · simp only [hr, Option.some.injEq, Except.error.injEq] at h
      obtain ⟨i, hi, hitem, hbefore⟩ := inTurn_error hr
      exact ⟨i, by omega, by rw [hitem, h], hbefore⟩
    · rcases hi : item n with _ | error | row
      · simp [hr, hi] at h
      · simp only [hr, hi, Option.some.injEq, Except.error.injEq] at h
        refine ⟨n, Nat.lt_succ_self n, by rw [hi, h], fun j hj => ?_⟩
        obtain ⟨row, -, hrow⟩ := (inTurn_ok hr).2 j hj
        exact ⟨row, hrow⟩
      · simp [hr, hi] at h

theorem inTurn_none : ∀ {n : Nat}, inTurn item (List.range n) = none →
    ∃ i < n, item i = none ∧ ∀ j < i, ∃ row, item j = some (.ok row)
  | n + 1, h => by
    rw [inTurn_range_succ] at h
    rcases hr : inTurn item (List.range n) with _ | error | rows
    · obtain ⟨i, hi, hitem, hbefore⟩ := inTurn_none hr
      exact ⟨i, by omega, hitem, hbefore⟩
    · simp [hr] at h
    · rcases hi : item n with _ | error | row
      · refine ⟨n, Nat.lt_succ_self n, hi, fun j hj => ?_⟩
        obtain ⟨row, -, hrow⟩ := (inTurn_ok hr).2 j hj
        exact ⟨row, hrow⟩
      · simp [hr, hi] at h
      · simp [hr, hi] at h

/-- The first item that has no row decides. -/
theorem inTurn_of_error {i : Nat} {e : RunError} (hi : i < n) (h : item i = some (.error e))
    (hbefore : ∀ j < i, ∃ row, item j = some (.ok row)) :
    inTurn item (List.range n) = some (.error e) := by
  obtain ⟨rows, hrows⟩ := inTurn_of_ok hbefore
  have hstop : inTurn item (List.range (i + 1)) = some (.error e) := by
    simp only [inTurn_range_succ, hrows, h]
  rw [← hstop]
  exact inTurn_of_le (fun rows' h' => by rw [hstop] at h'; cases h') hi

end InTurn

section Run

variable (cells : List Cell) (seed : UInt64) (iterations : Nat) (cancelled : Nat → Bool)

/-- What iteration `i` gives in a sequential run that comes so far. -/
def attempt (i : Nat) : Outcome (List Number) :=
  if cancelled i then some (.error (.cancelled i iterations))
  else runIteration cells seed i (emptyRow cells)

variable {cells seed iterations cancelled}

theorem attempt_length {i : Nat} {row : List Number}
    (h : attempt cells seed iterations cancelled i = some (.ok row)) :
    row.length = cells.length := by
  unfold attempt at h
  split_ifs at h with hc
  · cases h
  · exact runIteration_length length_emptyRow h

theorem runFrom_eq : ∀ (todo : List Nat) {row : List Number} (columns : List (Array Number)),
    row.length = cells.length → runFrom cells seed iterations cancelled todo row columns =
      (inTurn (attempt cells seed iterations cancelled) todo).map
        (·.map (·.foldl pushRow columns))
  | [], _, _, _ => rfl
  | i :: todo, row, columns, h => by
    rw [runFrom, inTurn, attempt, runIteration_row h]
    split_ifs with hc
    · rfl
    · rcases hr : runIteration cells seed i (emptyRow cells) with _ | error | row'
      · rfl
      · rfl
      · have hlen := runIteration_length length_emptyRow hr
        simp only [runFrom_eq todo (pushRow columns row') hlen]
        rcases inTurn (attempt cells seed iterations cancelled) todo with _ | error | rows <;> rfl

theorem runSequential_eq : runSequential cells seed iterations cancelled =
    (inTurn (attempt cells seed iterations cancelled) (List.range iterations)).map
      (·.map (·.foldl pushRow (emptyColumns cells))) :=
  runFrom_eq _ _ length_emptyRow

/-- A run stops at the first iteration that gives no row. -/
theorem runSequential_stops {e : RunError}
    (h : runSequential cells seed iterations cancelled = some (.error e)) :
    ∃ i < iterations, attempt cells seed iterations cancelled i = some (.error e) ∧
      ∀ j < i, ∃ row, attempt cells seed iterations cancelled j = some (.ok row) := by
  rw [runSequential_eq, map_eq_error] at h
  exact inTurn_error h

/-- Column `k` of a run holds the samples that the iterations have put at place `k`. -/
theorem getElem?_columns {rows : List (List Number)} {k : Nat} (hk : k < cells.length)
    (h : inTurn (attempt cells seed iterations cancelled) (List.range iterations) =
      some (.ok rows)) :
    (rows.foldl pushRow (emptyColumns cells))[k]?.map Array.toList =
      some (rows.map (·.getD k 0)) := by
  have hrows : ∀ row ∈ rows, row.length = (emptyColumns cells).length := by
    intro row hrow
    obtain ⟨i, hi, rfl⟩ := List.getElem_of_mem hrow
    obtain ⟨hlen, hall⟩ := inTurn_ok h
    obtain ⟨row, hrow, hok⟩ := hall i (by omega)
    rw [List.getElem?_eq_getElem hi, Option.some.injEq] at hrow
    rw [hrow, attempt_length hok, emptyColumns, List.length_replicate]
  rw [getElem?_foldl_pushRow k hrows, emptyColumns, List.getElem?_replicate, if_pos hk]
  rfl

end Run

end Simulation

end EstimateSheet
