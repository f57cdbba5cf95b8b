import EstimateSheet.Proofs.Samples

/-!
# Iterations on a pool

A pool carries out each iteration once at most, and all of them unless one fails (`Possible`). When
they end, the rows are put in the order of their numbers (`inOrder_eq`), so that the order in which
they end does not show. For every such schedule a run has the columns that it has in order, and an
error is that of an iteration on its own (`runParallel_agrees`).
-/

namespace EstimateSheet

section Lists

variable {α β ε : Type}

theorem map_eq_of_mapM {f : α → Option β} : ∀ {l : List α} {l' : List β},
    l.mapM f = some l' → l.map f = l'.map some
  | [], l', h => by
    cases h
    rfl
  | a :: l, l', h => by
    rw [List.mapM_cons] at h
    rcases ha : f a with _ | b
    · rw [ha] at h
      cases h
    · rcases hl : l.mapM f with _ | bs
      · rw [ha, hl] at h
        cases h
      · rw [ha, hl] at h
        cases h
        rw [List.map_cons, map_eq_of_mapM hl, ha]
        rfl

theorem mapM_of_map_eq {f : α → Option β} : ∀ {l : List α} {l' : List β},
    l.map f = l'.map some → l.mapM f = some l'
  | [], [], _ => rfl
  | a :: l, b :: l', h => by
    simp only [List.map_cons, List.cons.injEq] at h
    rw [List.mapM_cons, h.1, mapM_of_map_eq h.2]
    rfl

theorem exists_of_mapM_eq_none {f : α → Option β} : ∀ {l : List α},
    l.mapM f = none → ∃ a ∈ l, f a = none
  | a :: l, h => by
    rw [List.mapM_cons] at h
    rcases ha : f a with _ | b
    · exact ⟨a, List.mem_cons_self, ha⟩
    · rcases hl : l.mapM f with _ | bs
      · obtain ⟨a', ha', h'⟩ := exists_of_mapM_eq_none hl
        exact ⟨a', List.mem_cons_of_mem a ha', h'⟩
      · rw [ha, hl] at h
        cases h

theorem eq_map_of_mapM_id : ∀ {l : List (Except ε α)} {l' : List α},
    l.mapM id = .ok l' → l = l'.map .ok
  | [], l', h => by
    cases h
    rfl
  | .error e :: l, l', h => by
    rw [List.mapM_cons] at h
    cases h
  | .ok a :: l, l', h => by
    rw [List.mapM_cons] at h
    rcases hl : l.mapM id with e | as
    · rw [hl] at h
      cases h
    · rw [hl] at h
      cases h
      rw [eq_map_of_mapM_id hl]
      rfl

theorem mem_of_mapM_id {e : ε} : ∀ {l : List (Except ε α)},
    l.mapM id = .error e → .error e ∈ l
  | .error e' :: l, h => by
    rw [List.mapM_cons] at h
    cases h
    exact List.mem_cons_self
  | .ok a :: l, h => by
    rw [List.mapM_cons] at h
    rcases hl : l.mapM id with e' | as
    · rw [hl] at h
      cases h
      exact List.mem_cons_of_mem _ (mem_of_mapM_id hl)
    · rw [hl] at h
      cases h

end Lists

namespace Simulation

section Order

variable {n : Nat} {rows : List (Nat × List Number)} {table : Array (Option (List Number))}

theorem size_foldl_set :
    (rows.foldl (fun table (i, row) => table.setIfInBounds i (some row)) table).size =
      table.size := by
  induction rows generalizing table with
  | nil => rfl
  | cons entry rows ih => rw [List.foldl_cons, ih, Array.size_setIfInBounds]

theorem getElem?_foldl_set_of_not_mem {j : Nat} (h : j ∉ rows.map Prod.fst) :
    (rows.foldl (fun table (i, row) => table.setIfInBounds i (some row)) table)[j]? =
      table[j]? := by
  induction rows generalizing table with
  | nil => rfl
  | cons entry rows ih =>
    simp only [List.map_cons, List.mem_cons, not_or] at h
    rw [List.foldl_cons, ih h.2, Array.getElem?_setIfInBounds_ne (Ne.symm h.1)]

theorem getElem?_foldl_set {j : Nat} {row : List Number} (hj : j < table.size)
    (h : (j, row) ∈ rows) (hrow : ∀ row', (j, row') ∈ rows → row' = row) :
    (rows.foldl (fun table (i, row) => table.setIfInBounds i (some row)) table)[j]? =
      some (some row) := by
  induction rows generalizing table with
  | nil => cases h
  | cons entry rows ih =>
    rw [List.foldl_cons]
    by_cases hmem : j ∈ rows.map Prod.fst
    · obtain ⟨⟨_, row'⟩, hentry, rfl⟩ := List.mem_map.1 hmem
      obtain rfl := hrow row' (List.mem_cons_of_mem _ hentry)
      refine ih (by rwa [Array.size_setIfInBounds]) hentry fun r hr => ?_
      exact hrow r (List.mem_cons_of_mem _ hr)
    · rw [getElem?_foldl_set_of_not_mem hmem]
      rcases List.mem_cons.1 h with rfl | h
      · rw [Array.getElem?_setIfInBounds_self_of_lt hj]
      · exact absurd (List.mem_map_of_mem h) hmem

/-- Rows that are all there are put in the order of their numbers, in whatever order they come. -/
theorem inOrder_eq {sorted : List (List Number)} (hlen : sorted.length = n)
    (h : ∀ i row, sorted[i]? = some row →
      (i, row) ∈ rows ∧ ∀ row', (i, row') ∈ rows → row' = row) :
    inOrder n rows = some sorted := by
  refine mapM_of_map_eq ?_
  rw [List.map_id]
  refine List.ext_getElem? fun i => ?_
  rw [Array.getElem?_toList, List.getElem?_map]
  rcases hi : sorted[i]? with _ | row
  · have hge := List.getElem?_eq_none_iff.1 hi
    refine Array.getElem?_eq_none ?_
    rw [size_foldl_set, Array.size_replicate]
    omega
  · have hlt := (List.getElem?_eq_some_iff.1 hi).1
    obtain ⟨hmem, hrow⟩ := h i row hi
    exact getElem?_foldl_set (by rw [Array.size_replicate]; omega) hmem hrow

/-- No row is missing if the rows can be put in order. -/
theorem mem_of_inOrder {sorted : List (List Number)} (h : inOrder n rows = some sorted) {i : Nat}
    (hi : i < n) : i ∈ rows.map Prod.fst := by
  by_contra hmem
  have hslot : (rows.foldl (fun table (i, row) => table.setIfInBounds i (some row))
      (Array.replicate n none))[i]? = (Array.replicate n none)[i]? :=
    getElem?_foldl_set_of_not_mem hmem
  have hsorted := congrArg (·[i]?) (map_eq_of_mapM h)
  simp only [List.map_id, Array.getElem?_toList, hslot, List.getElem?_map, Array.getElem?_replicate,
    if_pos hi] at hsorted
  rcases hrow : sorted[i]? with _ | row
  · simp [hrow] at hsorted
  · simp [hrow] at hsorted

end Order

section Run

variable (cells : List Cell) (seed : UInt64) (n : Nat) (cancelled : Nat → Bool)

/-- What a pool may carry out of `n` iterations: none of them twice, and all unless one fails. -/
structure Possible (schedule : List Nat) : Prop where
  nodup : schedule.Nodup
  lt : ∀ i ∈ schedule, i < n
  complete : (∀ i ∈ schedule, ∀ e, runAlone cells seed n cancelled i ≠ some (.error e)) →
    ∀ i < n, i ∈ schedule

variable {cells seed n cancelled} {schedule : List Nat}

theorem runAlone_eq_ok {i : Nat} {row : List Number} :
    runAlone cells seed n cancelled i = some (.ok row) ↔
      attempt cells seed n cancelled i = some (.ok row) := by
  unfold runAlone attempt
  split_ifs with h
  · simp
  · rfl

/-- Of the iterations that are carried out one does not end, or one fails, or all have rows. -/
theorem runParallel_cases (cells : List Cell) (seed : UInt64) (n : Nat) (cancelled : Nat → Bool)
    (schedule : List Nat) :
    (∃ i ∈ schedule, runAlone cells seed n cancelled i = none) ∧
      runParallel cells seed n cancelled schedule = none ∨
    (∃ (outcomes : List (Except RunError (List Number))) (e : RunError),
      schedule.map (runAlone cells seed n cancelled) = outcomes.map some ∧ .error e ∈ outcomes ∧
      runParallel cells seed n cancelled schedule =
        some (.error (e.withCompleted (outcomes.countP Except.isOk)))) ∨
    ∃ rows, schedule.map (runAlone cells seed n cancelled) = rows.map (some ∘ .ok) ∧
      runParallel cells seed n cancelled schedule = (inOrder n (schedule.zip rows)).map
        fun table => .ok (table.foldl pushRow (emptyColumns cells)) := by
  unfold runParallel
  rcases ho : schedule.mapM (m := Option) (runAlone cells seed n cancelled) with _ | outcomes
  · exact .inl ⟨exists_of_mapM_eq_none ho, rfl⟩
  · have houtcomes := map_eq_of_mapM ho
    rcases hr : outcomes.mapM id with e | rows
    · exact .inr (.inl ⟨outcomes, e, houtcomes, mem_of_mapM_id hr, by simp only [hr]⟩)
    · rw [eq_map_of_mapM_id hr, List.map_map] at houtcomes
      exact .inr (.inr ⟨rows, houtcomes, by simp only [hr]⟩)

theorem row_of_outcome {rows : List (List Number)}
    (h : schedule.map (runAlone cells seed n cancelled) = rows.map (some ∘ .ok)) {k i : Nat}
    (hk : schedule[k]? = some i) :
    ∃ row, rows[k]? = some row ∧ attempt cells seed n cancelled i = some (.ok row) := by
  have hat := congrArg (·[k]?) h
  simp only [List.getElem?_map, hk, Option.map_some] at hat
  obtain ⟨row, hrow, heq⟩ := Option.map_eq_some_iff.1 hat.symm
  exact ⟨row, hrow, runAlone_eq_ok.1 heq.symm⟩

/-- If all that are carried out have rows, none is left out. -/
theorem Possible.mem_of_attempts (hp : Possible cells seed n cancelled schedule)
    (h : ∀ i ∈ schedule, ∃ row, attempt cells seed n cancelled i = some (.ok row)) :
    ∀ i < n, i ∈ schedule := by
  refine hp.complete fun i hi e he => ?_
  obtain ⟨row, hrow⟩ := h i hi
  rw [runAlone_eq_ok.2 hrow] at he
  cases he

theorem Possible.mem_of_rows (hp : Possible cells seed n cancelled schedule)
    {rows : List (List Number)}
    (h : schedule.map (runAlone cells seed n cancelled) = rows.map (some ∘ .ok)) :
    ∀ i < n, i ∈ schedule := by
  refine hp.mem_of_attempts fun i hi => ?_
  obtain ⟨k, hk⟩ := List.mem_iff_getElem?.1 hi
  obtain ⟨row, -, hok⟩ := row_of_outcome h hk
  exact ⟨row, hok⟩

/-- If all iterations are carried out and have rows, the rows in order are those of a run in
order. -/
theorem inOrder_of_rows {rows : List (List Number)} (hall : ∀ i < n, i ∈ schedule)
    (h : schedule.map (runAlone cells seed n cancelled) = rows.map (some ∘ .ok)) :
    ∃ sorted, inOrder n (schedule.zip rows) = some sorted ∧
      runSequential cells seed n cancelled =
        some (.ok (sorted.foldl pushRow (emptyColumns cells))) := by
  have hplace : ∀ i < n, ∃ k : Nat, schedule[k]? = some i :=
    fun i hi => List.mem_iff_getElem?.1 (hall i hi)
  obtain ⟨sorted, hsorted⟩ := inTurn_of_ok (n := n) fun i hi => by
    obtain ⟨k, hk⟩ := hplace i hi
    obtain ⟨row, -, hok⟩ := row_of_outcome h hk
    exact ⟨row, hok⟩
  obtain ⟨hlen, hrows⟩ := inTurn_ok hsorted
  refine ⟨sorted, inOrder_eq hlen fun i row hi => ?_, by rw [runSequential_eq, hsorted]; rfl⟩
  -- every row that the pool has for iteration `i` is the one in order
  have hlt : i < n := hlen ▸ (List.getElem?_eq_some_iff.1 hi).1
  have heq : ∀ (k : Nat) (other : List Number), schedule[k]? = some i →
      rows[k]? = some other → other = row := by
    intro k other hk hother
    obtain ⟨ran, hran, hok⟩ := row_of_outcome h hk
    obtain ⟨placed, hplaced, hok'⟩ := hrows i hlt
    rw [hother, Option.some.injEq] at hran
    rw [hi, Option.some.injEq] at hplaced
    rw [hok', ← hran, ← hplaced] at hok
    cases hok
    rfl
  obtain ⟨k, hk⟩ := hplace i hlt
  obtain ⟨row', hrow', -⟩ := row_of_outcome h hk
  obtain rfl := heq k row' hk hrow'
  refine ⟨List.mem_iff_getElem?.2 ⟨k, List.getElem?_zip_eq_some.2 ⟨hk, hrow'⟩⟩, fun r hr => ?_⟩
  obtain ⟨l, hl⟩ := List.mem_iff_getElem?.1 hr
  obtain ⟨hl, hr⟩ := List.getElem?_zip_eq_some.1 hl
  exact heq l r hl hr

theorem runAlone_of_runSequential {columns : List (Array Number)}
    (h : runSequential cells seed n cancelled = some (.ok columns)) :
    ∀ i < n, ∃ row, runAlone cells seed n cancelled i = some (.ok row) := by
  intro i hi
  rw [runSequential_eq, map_eq_ok] at h
  obtain ⟨rows, hr, -⟩ := h
  obtain ⟨row, -, hok⟩ := (inTurn_ok hr).2 i hi
  exact ⟨row, runAlone_eq_ok.2 hok⟩

theorem exists_runAlone_of_mem {outcomes : List (Except RunError (List Number))}
    {outcome : Except RunError (List Number)}
    (h : schedule.map (runAlone cells seed n cancelled) = outcomes.map some)
    (hmem : outcome ∈ outcomes) :
    ∃ i ∈ schedule, runAlone cells seed n cancelled i = some outcome := by
  have hsome : some outcome ∈ outcomes.map some := List.mem_map_of_mem hmem
  rw [← h] at hsome
  exact List.mem_map.1 hsome

/-- A run that does not stop early has the columns of a run in order. -/
theorem runParallel_eq (hall : ∀ i < n, i ∈ schedule)
    {rows : List (List Number)}
    (h : schedule.map (runAlone cells seed n cancelled) = rows.map (some ∘ .ok))
    (hrun : runParallel cells seed n cancelled schedule = (inOrder n (schedule.zip rows)).map
      fun table => .ok (table.foldl pushRow (emptyColumns cells))) :
    runParallel cells seed n cancelled schedule = runSequential cells seed n cancelled := by
  obtain ⟨sorted, hsorted, hseq⟩ := inOrder_of_rows hall h
  rw [hrun, hsorted, hseq]
  rfl

/-- A pool has the columns of a run in order, if it carries out every iteration and all that it
carries out have rows. -/
theorem runParallel_eq_ok_iff {columns : List (Array Number)} :
    runParallel cells seed n cancelled schedule = some (.ok columns) ↔
      (∀ i ∈ schedule, ∃ row, attempt cells seed n cancelled i = some (.ok row)) ∧
      (∀ i < n, i ∈ schedule) ∧ runSequential cells seed n cancelled = some (.ok columns) := by
  rcases runParallel_cases cells seed n cancelled schedule with
    ⟨⟨i, hi, hnone⟩, hrun⟩ | ⟨outcomes, e, ho, he, hrun⟩ | ⟨rows, hrows, hrun⟩
  · refine ⟨fun h => ?_, fun ⟨hok, _, _⟩ => ?_⟩
    · rw [hrun] at h
      cases h
    · obtain ⟨row, hrow⟩ := hok i hi
      rw [runAlone_eq_ok.2 hrow] at hnone
      cases hnone
  · refine ⟨fun h => ?_, fun ⟨hok, _, _⟩ => ?_⟩
    · rw [hrun] at h
      cases h
    · obtain ⟨i, hi, herror⟩ := exists_runAlone_of_mem ho he
      obtain ⟨row, hrow⟩ := hok i hi
      rw [runAlone_eq_ok.2 hrow] at herror
      cases herror
  · refine ⟨fun h => ?_, fun ⟨_, hall, hseq⟩ => ?_⟩
    · have hall : ∀ i < n, i ∈ schedule := by
        intro i hi
        rw [hrun] at h
        obtain ⟨sorted, hsorted, -⟩ := Option.map_eq_some_iff.1 h
        obtain ⟨entry, hentry, rfl⟩ := List.mem_map.1 (mem_of_inOrder hsorted hi)
        exact (List.of_mem_zip hentry).1
      refine ⟨fun i hi => ?_, hall, by rw [← runParallel_eq hall hrows hrun, h]⟩
      obtain ⟨k, hk⟩ := List.mem_iff_getElem?.1 hi
      obtain ⟨row, -, hok⟩ := row_of_outcome hrows hk
      exact ⟨row, hok⟩
    · rw [runParallel_eq hall hrows hrun, hseq]

theorem runParallel_of_runSequential (hp : Possible cells seed n cancelled schedule)
    {columns : List (Array Number)}
    (h : runSequential cells seed n cancelled = some (.ok columns)) :
    runParallel cells seed n cancelled schedule = some (.ok columns) := by
  have hrows : ∀ i ∈ schedule, ∃ row, attempt cells seed n cancelled i = some (.ok row) := by
    intro i hi
    obtain ⟨row, hrow⟩ := runAlone_of_runSequential h i (hp.lt i hi)
    exact ⟨row, runAlone_eq_ok.1 hrow⟩
  exact runParallel_eq_ok_iff.2 ⟨hrows, hp.mem_of_attempts hrows, h⟩

theorem runSequential_of_runParallel (hp : Possible cells seed n cancelled schedule)
    {columns : List (Array Number)}
    (h : runParallel cells seed n cancelled schedule = some (.ok columns)) :
    runSequential cells seed n cancelled = some (.ok columns) := by
  rcases runParallel_cases cells seed n cancelled schedule with
    ⟨-, hrun⟩ | ⟨_, _, -, -, hrun⟩ | ⟨rows, hrows, hrun⟩
  · rw [hrun] at h
    cases h
  · rw [hrun] at h
    cases h
  · rw [← runParallel_eq (hp.mem_of_rows hrows) hrows hrun, h]

section

variable (hn : (cells.map (·.name)).Nodup)

include hn

theorem runParallel_error {e : RunError}
    (h : runParallel cells seed n cancelled schedule = some (.error e)) :
    (∃ i ∈ schedule, cancelled i = false ∧
      runIteration cells seed i (emptyRow cells) = some (.error e) ∧
      ∃ k cell error, Fails cells seed i k cell error ∧ e = .evaluation cell.name error) ∨
    ∃ i ∈ schedule, cancelled i = true ∧ ∃ completed, e = .cancelled completed n := by
  rcases runParallel_cases cells seed n cancelled schedule with
    ⟨-, hrun⟩ | ⟨outcomes, e', ho, he, hrun⟩ | ⟨rows, -, hrun⟩
  · rw [hrun] at h
    cases h
  · rw [hrun] at h
    cases h
    obtain ⟨i, hi, herror⟩ := exists_runAlone_of_mem ho he
    unfold runAlone at herror
    split_ifs at herror with hc
    · cases herror
      exact .inr ⟨i, hi, hc, _, rfl⟩
    · obtain ⟨k, cell, error, hf, rfl⟩ := runIteration_error hn length_emptyRow herror
      exact .inl ⟨i, hi, Bool.eq_false_iff.2 hc, herror, k, cell, error, hf, rfl⟩
  · rw [hrun] at h
    obtain ⟨table, -, htable⟩ := Option.map_eq_some_iff.1 h
    cases htable

theorem runParallel_none (hp : Possible cells seed n cancelled schedule)
    (h : runParallel cells seed n cancelled schedule = none) :
    ∃ i ∈ schedule, cancelled i = false ∧ ∃ k, Hangs cells seed i k := by
  rcases runParallel_cases cells seed n cancelled schedule with
    ⟨⟨i, hi, hnone⟩, -⟩ | ⟨_, _, -, -, hrun⟩ | ⟨rows, hrows, hrun⟩
  · unfold runAlone at hnone
    split_ifs at hnone with hc
    exact ⟨i, hi, Bool.eq_false_iff.2 hc, runIteration_none hn length_emptyRow hnone⟩
  · rw [hrun] at h
    cases h
  · obtain ⟨sorted, hsorted, -⟩ := inOrder_of_rows (hp.mem_of_rows hrows) hrows
    rw [hrun, hsorted] at h
    cases h

end

theorem runSequential_cancelled (hc : ∀ i, cancelled i = true) (hn : 0 < n) :
    runSequential cells seed n cancelled = some (.error (.cancelled 0 n)) := by
  obtain ⟨m, rfl⟩ := Nat.exists_eq_add_of_lt hn
  rw [runSequential, List.range_succ_eq_map, runFrom, if_pos (hc 0)]

theorem runParallel_cancelled (hp : Possible cells seed n cancelled schedule)
    (hc : ∀ i, cancelled i = true) (hn : 0 < n) :
    runParallel cells seed n cancelled schedule = some (.error (.cancelled 0 n)) := by
  have hall : ∀ i, runAlone cells seed n cancelled i = some (.error (.cancelled 0 n)) :=
    fun i => if_pos (hc i)
  rcases runParallel_cases cells seed n cancelled schedule with
    ⟨⟨i, -, hnone⟩, -⟩ | ⟨outcomes, e, ho, he, hrun⟩ | ⟨rows, hrows, hrun⟩
  · rw [hall] at hnone
    cases hnone
  · have herror : ∀ outcome ∈ outcomes, outcome = .error (.cancelled 0 n) := by
      intro outcome hmem
      obtain ⟨i, -, hi⟩ := exists_runAlone_of_mem ho hmem
      rw [hall, Option.some.injEq] at hi
      exact hi.symm
    have hcount : outcomes.countP Except.isOk = 0 := by
      refine List.countP_eq_zero.2 fun outcome hmem => ?_
      rw [herror outcome hmem]
      exact Bool.false_ne_true
    cases herror _ he
    rw [hrun, hcount]
    rfl
  · obtain ⟨sorted, -, hseq⟩ := inOrder_of_rows (hp.mem_of_rows hrows) hrows
    rw [runSequential_cancelled hc hn] at hseq
    cases hseq

end Run

/-- For every schedule, a run by a pool and a run in order have the same columns if they have any.
An error of the pool is what an iteration gives on its own, or tells that some check has seen the
run cancelled, and it does not end only if an evaluation does not. If all checks see it cancelled,
both report that none of the iterations has been completed; if there are none, both have empty
columns. -/
theorem runParallel_agrees (d : Document) (seed : UInt64) (n : Nat) (cancelled : Nat → Bool)
    (schedule : List Nat) (hp : Possible d.cells seed n cancelled schedule) :
    (∀ columns, runParallel d.cells seed n cancelled schedule = some (.ok columns) ↔
      runSequential d.cells seed n cancelled = some (.ok columns)) ∧
    (∀ e, runParallel d.cells seed n cancelled schedule = some (.error e) →
      (∃ i ∈ schedule, cancelled i = false ∧
        runIteration d.cells seed i (emptyRow d.cells) = some (.error e) ∧
        ∃ k cell error, Fails d.cells seed i k cell error ∧ e = .evaluation cell.name error) ∨
      ∃ i ∈ schedule, cancelled i = true ∧ ∃ completed, e = .cancelled completed n) ∧
    (runParallel d.cells seed n cancelled schedule = none →
      ∃ i ∈ schedule, cancelled i = false ∧ ∃ k, Hangs d.cells seed i k) ∧
    ((∀ i, cancelled i = true) → 0 < n →
      runParallel d.cells seed n cancelled schedule = some (.error (.cancelled 0 n)) ∧
      runSequential d.cells seed n cancelled = some (.error (.cancelled 0 n))) ∧
    (n = 0 → runParallel d.cells seed n cancelled schedule = some (.ok (emptyColumns d.cells)) ∧
      runSequential d.cells seed n cancelled = some (.ok (emptyColumns d.cells))) := by
  refine ⟨fun columns => ⟨fun h => ?_, fun h => ?_⟩, fun e h => ?_, fun h => ?_, fun hc hn => ?_,
    fun hn => ?_⟩
  · exact runSequential_of_runParallel hp h
  · exact runParallel_of_runSequential hp h
  · exact runParallel_error d.nodup h
  · exact runParallel_none d.nodup hp h
  · exact ⟨runParallel_cancelled hp hc hn, runSequential_cancelled hc hn⟩
  · subst hn
    obtain rfl : schedule = [] := List.eq_nil_iff_forall_not_mem.2 fun i hi =>
      absurd (hp.lt i hi) (Nat.not_lt_zero i)
    exact ⟨rfl, rfl⟩

/-- Three iterations that end in reverse order. -/
theorem runParallel_agrees_reversed :
    let d := (Document.empty.push ⟨"a", "2"⟩ (.number 2) (by decide)).push ⟨"b", "a"⟩
      (.reference "a") (by decide)
    Possible d.cells 7 3 (fun _ => false) [2, 1, 0] ∧
      runParallel d.cells 7 3 (fun _ => false) [2, 1, 0] =
        some (.ok [#[2, 2, 2], #[2, 2, 2]]) := by
  intro d
  have hp : Possible d.cells 7 3 (fun _ => false) [2, 1, 0] :=
    ⟨by decide, by decide, fun _ => by decide⟩
  exact ⟨hp, ((runParallel_agrees d 7 3 (fun _ => false) [2, 1, 0] hp).1 _).2 rfl⟩

end Simulation

end EstimateSheet
