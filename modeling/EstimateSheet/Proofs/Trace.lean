import EstimateSheet.Simulation.Iteration
import Mathlib.Data.List.Basic

/-!
# What happens in an iteration

`Reached` follows an iteration from cell to cell: a cell is evaluated with nothing bound but the
cells before it, each to its value in the same iteration, and with the source as those leave it. So
a cell has a value in an iteration (`Yields`), or an error (`Fails`), or its evaluation does not end
(`Hangs`), and only one of these (`Evaluates.unique`).

Carrying out an iteration ends in one of the ways this allows, whatever the row held before
(`runIteration_ends`).
-/

namespace EstimateSheet

namespace Bindings

/-- The bindings of names to values. -/
def zip (names : List String) (values : List Value) : Bindings := ⟨names.zip values⟩

theorem bind_append {name : String} {value : Value} : ∀ {entries : List (String × Value)},
    name ∉ entries.map (·.1) → set.bind name value entries = entries ++ [(name, value)]
  | [], _ => rfl
  | entry :: entries, h => by
    simp only [List.map_cons, List.mem_cons, not_or] at h
    have hne : (entry.1 == name) = false := beq_eq_false_iff_ne.2 (Ne.symm h.1)
    simp only [set.bind, hne, Bool.false_eq_true, if_false, bind_append h.2, List.cons_append]

/-- Setting a name that is not bound binds it after the others. -/
theorem set_zip {names : List String} {values : List Value} {name : String} (value : Value)
    (hl : values.length = names.length) (hn : name ∉ names) :
    (zip names values).set name value = zip (names ++ [name]) (values ++ [value]) := by
  have hkeys : (names.zip values).map (·.1) = names := List.map_fst_zip (Nat.le_of_eq hl.symm)
  have happ : (names ++ [name]).zip (values ++ [value]) = names.zip values ++ [(name, value)] :=
    List.zip_append hl.symm
  simp only [zip, set, happ]
  rw [bind_append]
  rwa [hkeys]

end Bindings

namespace Simulation

section

variable (cells : List Cell) (seed : UInt64) (i : Nat)

/-- The evaluation of cell `k` with the cells before it bound to values. -/
def evalCell (k : Nat) (cell : Cell) (values : List Value) (s : Source) :
    Option (Except FormulaError Value × Source) :=
  (cell.expr.eval (.zip ((cells.take k).map (·.name)) values)).run s

/-- The first `k` cells of iteration `i` have these values and leave the source `s`. -/
inductive Reached : Nat → List Value → Source → Prop where
  | start : Reached 0 [] (.ofSeed (iterationSeed seed (UInt64.ofNat i)))
  | next {k values s cell value s'} : Reached k values s → cells[k]? = some cell →
      evalCell cells k cell values s = some (.ok value, s') → Reached (k + 1) (values ++ [value]) s'

/-- Evaluating cell `k` in iteration `i` has this outcome. -/
def Evaluates (k : Nat) (cell : Cell) (outcome : Option (Except FormulaError Value × Source)) :
    Prop :=
  ∃ values s, Reached cells seed i k values s ∧ cells[k]? = some cell ∧
    evalCell cells k cell values s = outcome

/-- Cell `k` has a value in iteration `i`. -/
def Yields (k : Nat) (value : Value) : Prop :=
  ∃ cell s, Evaluates cells seed i k cell (some (.ok value, s))

/-- Cell `k` has an error in iteration `i`. -/
def Fails (k : Nat) (cell : Cell) (error : FormulaError) : Prop :=
  ∃ s, Evaluates cells seed i k cell (some (.error error, s))

/-- The evaluation of cell `k` in iteration `i` does not end. -/
def Hangs (k : Nat) : Prop := ∃ cell, Evaluates cells seed i k cell none

/-- An iteration ends with the samples of its cells, or with the error of one, or not at all. -/
inductive Ends : Outcome (List Number) → Prop where
  | ok {values s} : Reached cells seed i cells.length values s →
      Ends (some (.ok (values.map Value.asNumber)))
  | error {k cell error} : Fails cells seed i k cell error →
      Ends (some (.error (.evaluation cell.name error)))
  | none {k} : Hangs cells seed i k → Ends none

end

variable {cells : List Cell} {seed : UInt64} {i k l : Nat}

theorem Reached.length_eq {values : List Value} {s : Source} :
    ∀ {k}, Reached cells seed i k values s → values.length = k
  | _, .start => rfl
  | _, .next h _ _ => by rw [List.length_append, h.length_eq]; rfl

/-- The cells before cell `k`, bound to values. -/
def bound (cells : List Cell) (k : Nat) (values : List Value) : Bindings :=
  .zip ((cells.take k).map (·.name)) values

theorem evalCell_eq {cell : Cell} {values : List Value} {s : Source} :
    evalCell cells k cell values s = (cell.expr.eval (bound cells k values)).run s := rfl

theorem Reached.bound_succ {values : List Value} {s : Source} {cell : Cell}
    (hn : (cells.map (·.name)).Nodup) (h : Reached cells seed i k values s)
    (hc : cells[k]? = some cell) (value : Value) :
    bound cells (k + 1) (values ++ [value]) = (bound cells k values).set cell.name value := by
  have htake : (cells.take (k + 1)).map (·.name) = (cells.take k).map (·.name) ++ [cell.name] := by
    rw [List.take_add_one, hc, Option.toList_some, List.map_append, List.map_singleton]
  have hlen : values.length = ((cells.take k).map (·.name)).length := by
    have hk := (List.getElem?_eq_some_iff.1 hc).1
    rw [h.length_eq, List.length_map, List.length_take]
    omega
  have hfresh : cell.name ∉ (cells.take k).map (·.name) := by
    have hsub : ((cells.take (k + 1)).map (·.name)).Sublist (cells.map (·.name)) :=
      (List.take_sublist _ _).map _
    have hnodup := hsub.nodup hn
    rw [htake, List.nodup_append] at hnodup
    exact fun hm => hnodup.2.2 _ hm _ (List.mem_singleton_self _) rfl
  rw [bound, bound, htake, Bindings.set_zip value hlen hfresh]

theorem Reached.unique {values values' : List Value} {s s' : Source}
    (h : Reached cells seed i k values s) (h' : Reached cells seed i k values' s') :
    values' = values ∧ s' = s := by
  induction h generalizing values' s' with
  | start =>
    cases h'
    exact ⟨rfl, rfl⟩
  | next _ hc he ih =>
    obtain _ | ⟨hr, hc', he'⟩ := h'
    obtain ⟨rfl, rfl⟩ := ih hr
    obtain rfl : _ = _ := Option.some.inj (hc'.symm.trans hc)
    rw [he] at he'
    cases he'
    exact ⟨rfl, rfl⟩

/-- The cells before the one that is reached have their values. -/
theorem Reached.yields : ∀ {k values s}, Reached cells seed i k values s → l < k →
    ∃ value, values[l]? = some value ∧ Yields cells seed i l value
  | _, _, _, .start, hl => absurd hl (Nat.not_lt_zero l)
  | k + 1, _, _, @Reached.next _ _ _ _ values s cell value s' h hc he, hl => by
    have hlen := h.length_eq
    rcases Nat.lt_or_eq_of_le (Nat.le_of_lt_succ hl) with hlt | rfl
    · obtain ⟨v, hv, hy⟩ := h.yields hlt
      exact ⟨v, by rw [List.getElem?_append_left (by omega), hv], hy⟩
    · exact ⟨value, by rw [← hlen, List.getElem?_concat_length], cell, s', values, s, h, hc, he⟩

namespace Evaluates

variable {cell cell' : Cell} {outcome outcome' : Option (Except FormulaError Value × Source)}

theorem lt (h : Evaluates cells seed i k cell outcome) : k < cells.length := by
  obtain ⟨_, _, -, hc, -⟩ := h
  exact (List.getElem?_eq_some_iff.1 hc).1

theorem unique (h : Evaluates cells seed i k cell outcome)
    (h' : Evaluates cells seed i k cell' outcome') : cell' = cell ∧ outcome' = outcome := by
  obtain ⟨_, _, hr, hc, rfl⟩ := h
  obtain ⟨_, _, hr', hc', rfl⟩ := h'
  obtain ⟨rfl, rfl⟩ := hr.unique hr'
  obtain rfl : _ = _ := Option.some.inj (hc'.symm.trans hc)
  exact ⟨rfl, rfl⟩

theorem yields (h : Evaluates cells seed i k cell outcome) (hl : l < k) :
    ∃ value, Yields cells seed i l value := by
  obtain ⟨_, _, hr, -⟩ := h
  obtain ⟨value, -, hy⟩ := hr.yields hl
  exact ⟨value, hy⟩

/-- An iteration stops at one cell only. -/
theorem eq_of_not_yields (h : Evaluates cells seed i k cell outcome)
    (h' : Evaluates cells seed i l cell' outcome') (hn : ∀ value, ¬ Yields cells seed i k value)
    (hn' : ∀ value, ¬ Yields cells seed i l value) : l = k := by
  rcases Nat.lt_trichotomy l k with hlt | heq | hlt
  · obtain ⟨value, hy⟩ := h.yields hlt
    exact absurd hy (hn' value)
  · exact heq
  · obtain ⟨value, hy⟩ := h'.yields hlt
    exact absurd hy (hn value)

end Evaluates

theorem Yields.unique {value value' : Value} (h : Yields cells seed i k value)
    (h' : Yields cells seed i k value') : value' = value := by
  obtain ⟨_, _, h⟩ := h
  obtain ⟨_, _, h'⟩ := h'
  cases (h.unique h').2
  rfl

theorem Fails.not_yields {cell : Cell} {error : FormulaError} (h : Fails cells seed i k cell error)
    (value : Value) : ¬ Yields cells seed i k value := by
  rintro ⟨_, _, h'⟩
  obtain ⟨_, h⟩ := h
  cases (h.unique h').2

theorem Hangs.not_yields (h : Hangs cells seed i k) (value : Value) :
    ¬ Yields cells seed i k value := by
  rintro ⟨_, _, h'⟩
  obtain ⟨_, h⟩ := h
  cases (h.unique h').2

/-- An iteration fails at one cell with one error. -/
theorem Fails.unique {cell cell' : Cell} {error error' : FormulaError}
    (h : Fails cells seed i k cell error) (h' : Fails cells seed i l cell' error') :
    l = k ∧ cell' = cell ∧ error' = error := by
  have hn := h.not_yields
  have hn' := h'.not_yields
  obtain ⟨_, h⟩ := h
  obtain ⟨_, h'⟩ := h'
  obtain rfl := h.eq_of_not_yields h' hn hn'
  obtain ⟨rfl, heq⟩ := h.unique h'
  cases heq
  exact ⟨rfl, rfl, rfl⟩

theorem Fails.not_hangs {cell : Cell} {error : FormulaError} (h : Fails cells seed i k cell error) :
    ¬ Hangs cells seed i l := by
  intro h'
  have hn := h.not_yields
  have hn' := h'.not_yields
  obtain ⟨_, h⟩ := h
  obtain ⟨_, h'⟩ := h'
  obtain rfl := h.eq_of_not_yields h' hn hn'
  cases (h.unique h').2

section

variable (hn : (cells.map (·.name)).Nodup)

include hn

/-- From a cell that is reached on, the other cells of an iteration fill the slots that are left. -/
theorem fillRow_ends : ∀ (todo done : List Cell) (slots : List Number) (values : List Value)
    (s : Source), cells = done ++ todo → slots.length = todo.length →
    Reached cells seed i done.length values s →
    Ends cells seed i ((fillRow todo slots (.zip (done.map (·.name)) values) s).map
      (·.map (values.map Value.asNumber ++ ·)))
  | [], done, [], values, s, hc, _, hr => by
    rw [List.append_nil] at hc
    rw [← hc] at hr
    simp only [fillRow, Option.map_some, Except.map, List.append_nil]
    exact .ok hr
  | cell :: todo, done, slot :: slots, values, s, hc, hlen, hr => by
    have hcell : cells[done.length]? = some cell := by
      rw [hc, List.getElem?_append_right (Nat.le_refl _), Nat.sub_self, List.getElem?_cons_zero]
    have heval : evalCell cells done.length cell values s =
        (cell.expr.eval (.zip (done.map (·.name)) values)).run s := by
      rw [evalCell, hc, List.take_left]
    -- no cell before it has the name, so it is bound after them and hides none
    have hfresh : cell.name ∉ done.map (·.name) := by
      rw [hc, List.map_append, List.map_cons, List.nodup_append] at hn
      exact fun hm => hn.2.2 _ hm _ List.mem_cons_self rfl
    rw [fillRow, ← heval]
    rcases h : evalCell cells done.length cell values s with _ | ⟨error | value, rest⟩
    · exact .none ⟨cell, values, s, hr, hcell, h⟩
    · exact .error ⟨rest, values, s, hr, hcell, h⟩
    · have hlen' : values.length = (done.map (·.name)).length := by
        rw [hr.length_eq, List.length_map]
      have hr' : Reached cells seed i (done ++ [cell]).length (values ++ [value]) rest := by
        rw [List.length_append]
        exact .next hr hcell h
      have ih := fillRow_ends todo (done ++ [cell]) slots (values ++ [value]) rest
        (by rw [hc, List.append_assoc]; rfl) (by simpa using hlen) hr'
      rw [List.map_append] at ih
      simp only [Bindings.set_zip value hlen' hfresh]
      rcases hf : fillRow todo slots _ rest with _ | error | row
      · simpa [hf] using ih
      · simpa [hf, Except.map] using ih
      · simpa [hf, Except.map] using ih

/-- Whatever the row held before, an iteration ends in one of the ways it can. -/
theorem runIteration_ends {row : List Number} (hrow : row.length = cells.length) :
    Ends cells seed i (runIteration cells seed i row) := by
  have hstart : Reached cells seed i 0 [] _ := .start
  have h := fillRow_ends hn cells [] row [] _ rfl hrow hstart
  unfold runIteration
  rw [show Bindings.empty = .zip [] [] from rfl]
  simp only [List.map_nil, List.nil_append] at h
  generalize fillRow cells row (.zip [] []) _ = outcome at h ⊢
  rcases outcome with _ | error | row'
  · exact h
  · exact h
  · exact h

variable {row : List Number} (hrow : row.length = cells.length)

include hrow

theorem runIteration_ok {row' : List Number} (h : runIteration cells seed i row = some (.ok row')) :
    row'.length = cells.length ∧ ∀ k < cells.length, ∃ value, Yields cells seed i k value ∧
      row'[k]? = some value.asNumber := by
  have hends : Ends cells seed i (runIteration cells seed i row) := runIteration_ends hn hrow
  rw [h] at hends
  obtain @⟨values, s, hr⟩ := hends
  refine ⟨by rw [List.length_map, hr.length_eq], fun k hk => ?_⟩
  obtain ⟨value, hv, hy⟩ := hr.yields hk
  exact ⟨value, hy, by rw [List.getElem?_map, hv]; rfl⟩

theorem runIteration_error {e : RunError}
    (h : runIteration cells seed i row = some (.error e)) :
    ∃ k cell error, Fails cells seed i k cell error ∧ e = .evaluation cell.name error := by
  have hends : Ends cells seed i (runIteration cells seed i row) := runIteration_ends hn hrow
  rw [h] at hends
  obtain _ | @⟨k, cell, error, hf⟩ := hends
  exact ⟨k, cell, error, hf, rfl⟩

theorem runIteration_none (h : runIteration cells seed i row = none) :
    ∃ k, Hangs cells seed i k := by
  have hends : Ends cells seed i (runIteration cells seed i row) := runIteration_ends hn hrow
  rw [h] at hends
  obtain _ | _ | @⟨k, hh⟩ := hends
  exact ⟨k, hh⟩

theorem runIteration_of_yields (h : ∀ k < cells.length, ∃ value, Yields cells seed i k value) :
    ∃ row', runIteration cells seed i row = some (.ok row') := by
  rcases hr : runIteration cells seed i row with _ | e | row'
  · obtain ⟨k, hh⟩ := runIteration_none hn hrow hr
    have hnot := hh.not_yields
    obtain ⟨_, hh⟩ := hh
    obtain ⟨value, hy⟩ := h k hh.lt
    exact absurd hy (hnot value)
  · obtain ⟨k, cell, error, hf, -⟩ := runIteration_error hn hrow hr
    have hnot := hf.not_yields
    obtain ⟨_, hf⟩ := hf
    obtain ⟨value, hy⟩ := h k hf.lt
    exact absurd hy (hnot value)
  · exact ⟨row', rfl⟩

theorem runIteration_of_fails {cell : Cell} {error : FormulaError}
    (h : Fails cells seed i k cell error) :
    runIteration cells seed i row = some (.error (.evaluation cell.name error)) := by
  rcases hr : runIteration cells seed i row with _ | e | row'
  · obtain ⟨_, hh⟩ := runIteration_none hn hrow hr
    exact absurd hh h.not_hangs
  · obtain ⟨_, _, _, hf, rfl⟩ := runIteration_error hn hrow hr
    obtain ⟨-, rfl, rfl⟩ := h.unique hf
    rfl
  · have hnot := h.not_yields
    obtain ⟨_, h⟩ := h
    obtain ⟨value, hy, -⟩ := (runIteration_ok hn hrow hr).2 _ h.lt
    exact absurd hy (hnot value)

end

end Simulation

end EstimateSheet
