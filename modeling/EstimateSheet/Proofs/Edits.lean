import EstimateSheet.Proofs.Agreement
import EstimateSheet.Proofs.Dependencies
import EstimateSheet.Proofs.Success

/-!
# Edits of a document

A document extends another if the cells of that one are among its own, in the same order, and of the
cells it adds those draw no random words that stand before a cell it keeps (`Document.Extends`). An
iteration of the extended document then comes to each kept cell with the same source, and with the
kept cells before it bound as in the other document (`Reached.restrict`). So the cells that both
documents have are given the same samples (`Document.simulateOn_of_extends`).
-/

namespace EstimateSheet

section Lists

variable {α β : Type} {p : α → Bool} {key : α → β}

/-- If keys tell the entries of a list apart, keeping those of a sublist leaves the sublist. -/
theorem filter_eq_of_sublist {l l' : List α} (h : l.Sublist l') (hn : (l'.map key).Nodup)
    (hp : ∀ a ∈ l', p a = true ↔ key a ∈ l.map key) : l'.filter p = l := by
  induction h with
  | slnil => rfl
  | @cons l l' a hsub ih =>
    obtain ⟨ha, hn⟩ := List.nodup_cons.1 hn
    have hout : ¬ p a = true := by
      rw [hp a List.mem_cons_self]
      exact fun hmem => ha ((hsub.map key).subset hmem)
    rw [List.filter_cons_of_neg hout, ih hn fun b hb => hp b (List.mem_cons_of_mem a hb)]
  | @cons_cons l l' a hsub ih =>
    obtain ⟨ha, hn⟩ := List.nodup_cons.1 hn
    have hin : p a = true := (hp a List.mem_cons_self).2 List.mem_cons_self
    have hrest : ∀ b ∈ l', p b = true ↔ key b ∈ l.map key := by
      intro b hb
      have hne : key b ≠ key a := fun heq => ha (heq ▸ List.mem_map_of_mem hb)
      rw [hp b (List.mem_cons_of_mem a hb), List.map_cons, List.mem_cons, or_iff_right hne]
    rw [List.filter_cons_of_pos hin, ih hn hrest]

theorem getElem?_filter_countP {l : List α} {k : Nat} {a : α} (hk : l[k]? = some a)
    (ha : p a = true) : (l.filter p)[(l.take k).countP p]? = some a := by
  have hdrop : l.drop k = a :: l.drop (k + 1) := by
    obtain ⟨hlt, rfl⟩ := List.getElem?_eq_some_iff.1 hk
    exact List.drop_eq_getElem_cons hlt
  have hsplit : l.filter p = (l.take k).filter p ++ a :: (l.drop (k + 1)).filter p := by
    rw [← List.filter_cons_of_pos ha, ← hdrop, ← List.filter_append, List.take_append_drop]
  rw [hsplit, List.countP_eq_length_filter, List.getElem?_append_right (Nat.le_refl _),
    Nat.sub_self, List.getElem?_cons_zero]

end Lists

open Simulation

namespace Document

/-- The cells of `d` are cells of `d'` in the same order, and any other cell of `d'` that stands
before one of them draws no random words. -/
structure Extends (d' d : Document) : Prop where
  sublist : (d.cells.map fun cell => (cell.name, cell.expr)).Sublist
    (d'.cells.map fun cell => (cell.name, cell.expr))
  added_before : ∀ (k l : Nat) (cell other : Cell), d'.cells[k]? = some cell →
    d'.cells[l]? = some other → k < l → cell.name ∉ d.names → other.name ∈ d.names →
    cell.expr.isStochastic = false

/-- How many of the first `k` cells of `d'` are cells of `d`. -/
def place (d d' : Document) (k : Nat) : Nat := (d'.cells.take k).countP (d.contains ·.name)

section

variable {d d' : Document} {k : Nat} {cell : Cell}

theorem place_succ (hk : d'.cells[k]? = some cell) :
    place d d' (k + 1) = place d d' k + if cell.name ∈ d.names then 1 else 0 := by
  simp only [place, List.take_add_one, hk, Option.toList_some, List.countP_append,
    List.countP_singleton, contains_iff]

namespace Extends

variable (h : d'.Extends d)

include h

theorem kept_eq : (d'.cells.filter (d.contains ·.name)).map (fun cell => (cell.name, cell.expr)) =
    d.cells.map fun cell => (cell.name, cell.expr) := by
  have hkeys : ∀ d : Document, (d.cells.map fun cell => (cell.name, cell.expr)).map Prod.fst =
      d.names := fun d => by rw [List.map_map]; rfl
  have hn : ((d'.cells.map fun cell => (cell.name, cell.expr)).map Prod.fst).Nodup := by
    rw [hkeys]
    exact d'.nodup
  rw [← filter_eq_of_sublist h.sublist hn fun entry _ => by rw [hkeys, ← d.contains_iff],
    List.filter_map]
  rfl

/-- A kept cell stands in `d` behind the cells that are kept before it. -/
theorem exists_at_place (hk : d'.cells[k]? = some cell) (hname : cell.name ∈ d.names) :
    ∃ kept, d.cells[place d d' k]? = some kept ∧ kept.name = cell.name ∧
      kept.expr = cell.expr := by
  have hin : d.contains cell.name = true := (d.contains_iff _).2 hname
  have hat := congrArg (·[place d d' k]?) h.kept_eq
  have hkept : (d'.cells.filter (d.contains ·.name))[place d d' k]? = some cell :=
    getElem?_filter_countP hk hin
  simp only [List.getElem?_map, hkept, Option.map_some] at hat
  obtain ⟨kept, hkept, heq⟩ := Option.map_eq_some_iff.1 hat.symm
  rw [Prod.mk.injEq] at heq
  exact ⟨kept, hkept, heq.1, heq.2⟩

theorem exists_kept (hc : cell ∈ d.cells) : ∃ (k : Nat) (kept : Cell), d'.cells[k]? = some kept ∧
    kept.name = cell.name ∧ d.cells[place d d' k]? = some cell := by
  have hmem := h.sublist.subset (List.mem_map_of_mem hc)
  obtain ⟨kept, hkept, heq⟩ := List.mem_map.1 hmem
  rw [Prod.mk.injEq] at heq
  obtain ⟨k, hk⟩ := List.mem_iff_getElem?.1 hkept
  have hname : kept.name ∈ d.names := by
    rw [heq.1]
    exact List.mem_map_of_mem hc
  obtain ⟨cell', hcell', hname', -⟩ := h.exists_at_place hk hname
  obtain rfl := eq_of_name_eq (List.mem_of_getElem? hcell') hc (hname'.trans heq.1)
  exact ⟨k, kept, hk, heq.1, hcell'⟩

end Extends

end

end Document

open Document

namespace Simulation

section

variable {text : String} {d' : Document} (h : d'.Extends (parse text)) {seed : UInt64} {i k l : Nat}

theorem evalCell_of_agreeOn {cell kept : Cell} {values values' : List Value} {s : Source}
    (hc : cell ∈ (parse text).cells) (hexpr : cell.expr = kept.expr)
    (hb : (bound d'.cells l values').AgreeOn (· ∈ (parse text).names)
      (bound (parse text).cells k values)) :
    evalCell (parse text).cells k cell values s = evalCell d'.cells l kept values' s := by
  have heval := kept.expr.eval_congr fun name hname => hb name (reads_names hc (hexpr ▸ hname))
  rw [evalCell_eq, evalCell_eq, heval, hexpr]

include h

/-- Up to a kept cell, an iteration of the extended document goes through the same sources as one of
the other document, and binds the cells that the two have in common alike. -/
theorem Reached.restrict {values' : List Value} {s : Source} {kept : Cell}
    (hr : Reached d'.cells seed i k values' s) (hl : d'.cells[l]? = some kept)
    (hname : kept.name ∈ (parse text).names) (hkl : k ≤ l) :
    ∃ values, Reached (parse text).cells seed i (place (parse text) d' k) values s ∧
      (bound d'.cells k values').AgreeOn (· ∈ (parse text).names)
        (bound (parse text).cells (place (parse text) d' k) values) := by
  -- the source is the same after each cell, as those that are added before cell `l` draw nothing
  induction hr with
  | start => exact ⟨[], .start, fun _ _ => rfl⟩
  | @next k values' s cell value s' hr hk he ih =>
    obtain ⟨values, hreached, hb⟩ := ih (by omega)
    rw [hr.bound_succ d'.nodup hk, place_succ hk]
    by_cases hcell : cell.name ∈ (parse text).names
    · obtain ⟨own, hown, hownName, hexpr⟩ := h.exists_at_place hk hcell
      have hsame := evalCell_of_agreeOn (s := s) (List.mem_of_getElem? hown) hexpr hb
      rw [if_pos hcell]
      refine ⟨values ++ [value], .next hreached hown (hsame.trans he), ?_⟩
      rw [hreached.bound_succ (parse text).nodup hown, hownName]
      exact hb.set _ _
    · have hstill := cell.expr.still_eval (bound d'.cells k values')
        (h.added_before k l cell kept hk hl hkl hcell hname)
      obtain ⟨rfl, -⟩ := hstill.run_eq he
      rw [if_neg hcell]
      exact ⟨values, hreached, (Bindings.AgreeOn.of_set hcell _ _).trans hb⟩

theorem Yields.restrict {kept : Cell} {value : Value} (hy : Yields d'.cells seed i k value)
    (hk : d'.cells[k]? = some kept) (hname : kept.name ∈ (parse text).names) :
    Yields (parse text).cells seed i (place (parse text) d' k) value := by
  obtain ⟨cell, s', values', s, hr, hc, he⟩ := hy
  rw [hk, Option.some.injEq] at hc
  subst hc
  obtain ⟨values, hreached, hb⟩ := hr.restrict h hk hname (Nat.le_refl k)
  obtain ⟨own, hown, -, hexpr⟩ := h.exists_at_place hk hname
  have hsame := evalCell_of_agreeOn (s := s) (List.mem_of_getElem? hown) hexpr hb
  exact ⟨own, s', values, s, hreached, hown, hsame.trans he⟩

theorem runIteration_of_extends {row' : List Number}
    (hrow : runIteration d'.cells seed i (emptyRow d'.cells) = some (.ok row')) :
    ∃ row, runIteration (parse text).cells seed i (emptyRow (parse text).cells) =
      some (.ok row) := by
  refine runIteration_of_yields (parse text).nodup length_emptyRow fun k hk => ?_
  obtain ⟨l, kept, hl, hname, hplace⟩ := h.exists_kept (List.getElem_mem hk)
  have horder := (accepted_parse text).order_eq
  have hkl : place (parse text) d' l = k := by
    rw [← horder _ _ hplace, horder k _ (List.getElem?_eq_getElem hk)]
  obtain ⟨value, hy, -⟩ := (runIteration_ok d'.nodup length_emptyRow hrow).2 l
    (List.getElem?_eq_some_iff.1 hl).1
  have hmem : kept.name ∈ (parse text).names := hname ▸ List.mem_map_of_mem (List.getElem_mem hk)
  exact ⟨value, hkl ▸ hy.restrict h hl hmem⟩

end

end Simulation

namespace Document

section

variable {text text' : String} {options : Options} {cancelled : Nat → Bool}
  {schedule schedule' : List Nat} {results' : Results}

theorem completes_of_extends (h : (parse text').Extends (parse text))
    (hr : (parse text').Completes options cancelled schedule')
    (hs : options.parallel = true → Possible (parse text).cells options.seed options.iterations
      cancelled schedule) : (parse text).Completes options cancelled schedule := by
  refine completes_of_attempts (fun i hi => ?_) hs
  obtain ⟨row', hrow'⟩ := hr.rows i (hr.all i hi)
  obtain ⟨hc, hrow'⟩ := attempt_eq_ok.1 hrow'
  obtain ⟨row, hrow⟩ := runIteration_of_extends h hrow'
  exact ⟨row, attempt_eq_ok.2 ⟨hc, hrow⟩⟩

/-- If a run of the extended document has results, so has the run of the document with the same
options, whatever pools carry the two out, and in both every cell of the document has the same
samples. -/
theorem simulateOn_of_extends (h : (parse text').Extends (parse text))
    (hr : (parse text').simulateOn options cancelled schedule' = some (.ok results'))
    (hs : options.parallel = true → Possible (parse text).cells options.seed options.iterations
      cancelled schedule) :
    ∃ results, (parse text).simulateOn options cancelled schedule = some (.ok results) ∧
      ∀ cell ∈ (parse text).cells, ∃ column, results.get? cell.name = some column ∧
        results'.get? cell.name = some column := by
  have hcompletes := completes_of_extends h (exists_results_iff.1 ⟨results', hr⟩) hs
  obtain ⟨results, hresults⟩ := exists_results_iff.2 hcompletes
  refine ⟨results, hresults, fun cell hc => ?_⟩
  obtain ⟨k, kept, hk, hname, hplace⟩ := h.exists_kept hc
  have hmem : kept.name ∈ (parse text).names := hname ▸ List.mem_map_of_mem hc
  obtain ⟨column, hget, hlen, hvalues⟩ := get?_of_simulateOn hresults hplace
  obtain ⟨column', hget', hlen', hvalues'⟩ := get?_of_simulateOn hr hk
  have hcolumns : column' = column := by
    refine List.ext_getElem? fun i => ?_
    rcases Nat.lt_or_ge i options.iterations with hi | hi
    · obtain ⟨value, hy, hx⟩ := hvalues i hi
      obtain ⟨value', hy', hx'⟩ := hvalues' i hi
      rw [hx, hx', hy.unique (hy'.restrict h hk hmem)]
    · rw [List.getElem?_eq_none (by omega), List.getElem?_eq_none (by omega)]
  refine ⟨column, hget, ?_⟩
  rw [← hname, hget', hcolumns]

end

theorem cells_parse_kept : (parse "[u = uniform(0, 1)]").cells =
    [⟨"u", "uniform(0, 1)", .call "uniform" [.number 0, .number 1], 0⟩] := by
  have hu := @Accepted.concat [] ⟨"u", "uniform(0, 1)"⟩ _ .nil (by decide) (by decide)
    (Parser.parse_uniform _)
  exact cells_parse hu (by decide +kernel)

/-- One cell is added before another that draws random words, and two after it, one of which draws
random words too. Two iterations end in reverse order. -/
theorem simulateOn_of_extends_uniform :
    let d := parse "[u = uniform(0, 1)]"
    let d' := parse "[k = 2]\n[u = uniform(0, 1)]\n[b = k]\n[v = uniform(0, 1)]"
    d'.Extends d ∧ ∃ results results' column,
      d.simulateOn { iterations := 2, seed := 7, parallel := true } (fun _ => false) [1, 0] =
        some (.ok results) ∧
      d'.simulateOn { iterations := 2, seed := 7, parallel := true } (fun _ => false) [0, 1] =
        some (.ok results') ∧
      results.get? "u" = some column ∧ results'.get? "u" = some column := by
  intro d d'
  have hcells := cells_parse_kept
  have hcells' := cells_parse_uniform
  have hnames : d.names = ["u"] := by
    rw [names, hcells]
    rfl
  have h : d'.Extends d := by
    refine ⟨?_, fun k l cell other hk hl hkl hname hother => ?_⟩
    · rw [hcells, hcells']
      exact .cons _ (.cons_cons _ (List.nil_sublist _))
    · rw [hnames, List.mem_singleton] at hname hother
      rw [hcells'] at hk hl
      rcases k with _ | _ | _ | k
      · cases hk
        rfl
      · cases hk
        exact absurd rfl hname
      · cases hk
        rfl
      · have hlt := (List.getElem?_eq_some_iff.1 hl).1
        simp only [List.length_cons, List.length_nil] at hlt
        omega
  have hok : (d'.simulateOn { iterations := 2, seed := 7, parallel := true } (fun _ => false)
      [0, 1]).map Except.isOk = some true := by
    unfold simulateOn
    rw [hcells']
    decide +kernel
  obtain ⟨results', hresults'⟩ := exists_of_isOk hok
  have hs : Possible d.cells 7 2 (fun _ => false) [1, 0] :=
    ⟨by decide, by decide, fun _ => by decide⟩
  obtain ⟨results, hresults, hsame⟩ := simulateOn_of_extends h hresults' fun _ => hs
  have hu : d.cells[0]? =
      some ⟨"u", "uniform(0, 1)", .call "uniform" [.number 0, .number 1], 0⟩ := by
    rw [hcells]
    rfl
  obtain ⟨column, hget, hget'⟩ := hsame _ (List.mem_of_getElem? hu)
  exact ⟨h, results, results', column, hresults, hresults', hget, hget'⟩

end Document

end EstimateSheet
