import EstimateSheet.Proofs.Dependencies
import EstimateSheet.Proofs.EvalErrors
import EstimateSheet.Proofs.Precedence
import EstimateSheet.Proofs.Success

/-!
# Boolean cells

Comparisons, connectives and negations are boolean, and so are names of boolean cells and choices
between boolean formulas (`Document.BooleanFormula`). If the cells with such formulas that are bound
are bound to booleans, a boolean formula comes to one (`Document.BooleanFormula.ensures`), so an
iteration binds one more in the same way and keeps this from cell to cell
(`Simulation.Reached.bindsBooleans`). The samples of these cells are then `0` and `1`
(`Document.samples_of_booleanFormula`).
-/

namespace EstimateSheet

namespace Value

/-- A truth value and not a number. -/
def IsBoolean (v : Value) : Prop := ∃ b, v = boolean b

theorem isBoolean_boolean (b : Bool) : (boolean b).IsBoolean := ⟨b, rfl⟩

theorem IsBoolean.asNumber_eq {v : Value} (h : v.IsBoolean) : v.asNumber = 0 ∨ v.asNumber = 1 := by
  obtain ⟨b, rfl⟩ := h
  cases b
  · exact .inl rfl
  · exact .inr rfl

end Value

namespace Evaluation

variable {α β : Type} {P : α → Prop} {Q : β → Prop}

/-- What the evaluation comes to has the property, whatever it draws. -/
def Ensures (P : α → Prop) (x : Evaluation α) : Prop :=
  ∀ s a rest, x.run s = some (.ok a, rest) → P a

theorem ensures_pure {a : α} (h : P a) : Ensures P (pure a) := by
  intro s a' rest heq
  cases heq
  exact h

theorem ensures_throw (e : FormulaError) : Ensures P (throw e) := by
  intro s a rest heq
  cases heq

theorem Ensures.bind {x : Evaluation α} {f : α → Evaluation β} (hx : Ensures P x)
    (hf : ∀ a, P a → Ensures Q (f a)) : Ensures Q (x >>= f) := by
  intro s b rest h
  obtain ⟨a, s', ha, hb⟩ := run_bind_eq_ok h
  exact hf a (hx s a s' ha) s' b rest hb

theorem ensures_bind {x : Evaluation α} {f : α → Evaluation β} (hf : ∀ a, Ensures Q (f a)) :
    Ensures Q (x >>= f) :=
  Ensures.bind (P := fun _ => True) (fun _ _ _ _ => trivial) fun a _ => hf a

end Evaluation

open Evaluation

theorem Builtin.chosen_three (x y z : Value) : chosen [x, y, z] = if x.holds then y else z := by
  have hget : ([x, y, z][0]?.map Value.holds).getD false = x.holds := rfl
  rw [chosen, hget]
  split_ifs <;> rfl

/-- All three arguments are evaluated, and then one of them is chosen. -/
theorem Expr.eval_choose (b : Bindings) (condition first second : Expr) :
    (Expr.call "if" [condition, first, second]).eval b = (do
      let x ← condition.eval b
      let y ← first.eval b
      let z ← second.eval b
      pure (if x.holds then y else z)) := by
  have hfind : Registry.standard.find? "if" = some ⟨.exactly 3, .choose⟩ := rfl
  have hcheck : Registry.checkArity "if" ⟨.exactly 3, .choose⟩ 3 = .ok () := rfl
  have happly (x y z : Value) : Builtin.choose.apply [x, y, z] =
      pure (if x.holds then y else z) := by
    rw [← Builtin.chosen_three]
    rfl
  rw [eval, hfind]
  simp only [List.length_cons, List.length_nil, Nat.zero_add, Nat.reduceAdd, hcheck, evalAll,
    bind_assoc, pure_bind, happly]

namespace Document

section

variable (d : Document)

/-- The formulas that are boolean by their form, where cells with such formulas are read as
booleans. -/
inductive BooleanFormula : Expr → Prop where
  | comparison (op : Comparison) (left right : Expr) :
      BooleanFormula (.binary (.comparison op) left right)
  | connective (op : Connective) (left right : Expr) :
      BooleanFormula (.binary (.connective op) left right)
  | not (operand : Expr) : BooleanFormula (.not operand)
  | reference {cell : Cell} : cell ∈ d.cells → BooleanFormula cell.expr →
      BooleanFormula (.reference cell.name)
  | choose (condition : Expr) {first second : Expr} : BooleanFormula first →
      BooleanFormula second → BooleanFormula (.call "if" [condition, first, second])

/-- The cells with boolean formulas that are bound, are bound to booleans. -/
def BindsBooleans (b : Bindings) : Prop :=
  ∀ cell ∈ d.cells, d.BooleanFormula cell.expr → ∀ v, b.get? cell.name = some v → v.IsBoolean

end

variable {d : Document} {b : Bindings}

/-- A boolean formula comes to a boolean. -/
theorem BooleanFormula.ensures {e : Expr} (he : d.BooleanFormula e) (hb : d.BindsBooleans b) :
    Ensures Value.IsBoolean (e.eval b) := by
  induction he with
  | comparison op left right =>
    rw [Expr.eval]
    exact ensures_bind fun x => ensures_bind fun y => ensures_pure (Value.isBoolean_boolean _)
  | connective op left right =>
    rw [Expr.eval]
    refine ensures_bind fun x => ?_
    split_ifs
    · exact ensures_pure (Value.isBoolean_boolean _)
    · exact ensures_bind fun y => ensures_pure (Value.isBoolean_boolean _)
  | not operand =>
    rw [Expr.eval]
    exact ensures_bind fun x => ensures_pure (Value.isBoolean_boolean _)
  | @reference cell hcell hcellFormula _ =>
    rw [Expr.eval]
    rcases hv : b.get? cell.name with _ | v
    · exact ensures_throw _
    · exact ensures_pure (hb cell hcell hcellFormula v hv)
  | choose condition hfirst hsecond ihfirst ihsecond =>
    rw [Expr.eval_choose]
    refine ensures_bind fun x => ihfirst.bind fun y hy => ihsecond.bind fun z hz => ?_
    split_ifs
    · exact ensures_pure hy
    · exact ensures_pure hz

theorem BindsBooleans.set {cell : Cell} {v : Value} (hb : d.BindsBooleans b)
    (hc : cell ∈ d.cells) (hv : d.BooleanFormula cell.expr → v.IsBoolean) :
    d.BindsBooleans (b.set cell.name v) := by
  intro other ho hformula w hw
  rw [Bindings.get?_set] at hw
  split_ifs at hw with hname
  · obtain rfl := eq_of_name_eq ho hc (beq_iff_eq.1 hname)
    obtain rfl := Option.some_inj.1 hw
    exact hv hformula
  · exact hb other ho hformula w hw

end Document

open Simulation

namespace Simulation

variable {d : Document} {seed : UInt64} {i k : Nat} {values : List Value} {s : Source}

/-- Wherever an iteration has come to, the cells with boolean formulas before are bound to
booleans. -/
theorem Reached.bindsBooleans (h : Reached d.cells seed i k values s) :
    d.BindsBooleans (bound d.cells k values) := by
  induction h with
  | start => exact fun _ _ _ _ hv => nomatch hv
  | @next k values s cell value s' hr hk he ih =>
    rw [hr.bound_succ d.nodup hk]
    refine ih.set (List.mem_of_getElem? hk) fun hformula => ?_
    rw [evalCell_eq] at he
    exact hformula.ensures ih s value s' he

theorem Yields.isBoolean {cell : Cell} {v : Value} (h : Yields d.cells seed i k v)
    (hk : d.cells[k]? = some cell) (hformula : d.BooleanFormula cell.expr) : v.IsBoolean := by
  obtain ⟨cell', s', values, s, hr, hk', he⟩ := h
  obtain rfl := Option.some_inj.1 (hk.symm.trans hk')
  rw [evalCell_eq] at he
  exact hformula.ensures hr.bindsBooleans s v s' he

/-- A later cell finds the value of an earlier one under its name. -/
theorem Reached.get?_bound {cell : Cell} {v : Value} (hk : d.cells[k]? = some cell)
    (hv : Yields d.cells seed i k v) : ∀ {l : Nat} {values : List Value} {s : Source},
    Reached d.cells seed i l values s → k < l →
      (bound d.cells l values).get? cell.name = some v
  | _, _, _, .start, hlt => absurd hlt (Nat.not_lt_zero k)
  | l + 1, _, _, @Reached.next _ _ _ _ values s last value s' hr hl he, hlt => by
    rw [hr.bound_succ d.nodup hl, Bindings.get?_set]
    rcases Nat.lt_or_eq_of_le (Nat.le_of_lt_succ hlt) with hbefore | rfl
    · have hne : (cell.name == last.name) = false := by
        refine beq_eq_false_iff_ne.2 fun hname => hbefore.ne ?_
        have hlength : k < (d.cells.map (·.name)).length := by
          rw [List.length_map]
          exact (List.getElem?_eq_some_iff.1 hk).1
        refine (List.getElem?_inj hlength d.nodup).1 ?_
        rw [List.getElem?_map, List.getElem?_map, hk, hl, Option.map_some, Option.map_some, hname]
      rw [hne, if_neg Bool.false_ne_true]
      exact hr.get?_bound hk hv hbefore
    · obtain rfl := Option.some_inj.1 (hk.symm.trans hl)
      rw [beq_self_eq_true, if_pos rfl, hv.unique ⟨cell, s', values, s, hr, hl, he⟩]

end Simulation

namespace Document

variable {d : Document} {options : Options} {cancelled : Nat → Bool} {schedule : List Nat}
  {results : Results}

/-- In a run that has results, a cell with a boolean formula has only the samples `0` and `1`, and
the cells after it read each of them as the boolean that it is. -/
theorem samples_of_booleanFormula
    (h : d.simulateOn options cancelled schedule = some (.ok results)) {k : Nat} {cell : Cell}
    (hk : d.cells[k]? = some cell) (hformula : d.BooleanFormula cell.expr) :
    ∃ column, results.get? cell.name = some column ∧ column.length = options.iterations ∧
      (∀ x ∈ column, x = 0 ∨ x = 1) ∧
      ∀ i < options.iterations, ∃ b, column[i]? = some (Value.boolean b).asNumber ∧
        ∀ l later, k < l → d.cells[l]? = some later → ∃ values s,
          Reached d.cells options.seed i l values s ∧
          (bound d.cells l values).get? cell.name = some (.boolean b) := by
  obtain ⟨column, hget, hlen, hvalues⟩ := get?_of_simulateOn h hk
  refine ⟨column, hget, hlen, fun x hx => ?_, fun i hi => ?_⟩
  · obtain ⟨i, hi⟩ := List.mem_iff_getElem?.1 hx
    have hlt : i < options.iterations := hlen ▸ (List.getElem?_eq_some_iff.1 hi).1
    obtain ⟨v, hyields, hv⟩ := hvalues i hlt
    obtain rfl := Option.some_inj.1 (hi.symm.trans hv)
    exact (hyields.isBoolean hk hformula).asNumber_eq
  · obtain ⟨v, hyields, hv⟩ := hvalues i hi
    obtain ⟨b, rfl⟩ := hyields.isBoolean hk hformula
    refine ⟨b, hv, fun l later hlt hl => ?_⟩
    obtain ⟨_, -, -, hlater⟩ := get?_of_simulateOn h hl
    obtain ⟨_, ⟨_, _, values, s, hr, -, -⟩, -⟩ := hlater i hi
    exact ⟨values, s, hr, hr.get?_bound hk hyields hlt⟩

/-- A text with boolean formulas of each kind. -/
theorem cells_parse_boolean :
    (parse "[u = uniform(0, 1)]\n[b = u < 0.5]\n[c = if(u, b, NOT b)]\n[n = c AND b]").cells =
      [⟨"u", "uniform(0, 1)", .call "uniform" [.number 0, .number 1], 0⟩,
        ⟨"b", "u < 0.5", .binary (.comparison .less) (.reference "u") (.number 0.5), 1⟩,
        ⟨"c", "if(u, b, NOT b)",
          .call "if" [.reference "u", .reference "b", .not (.reference "b")], 2⟩,
        ⟨"n", "c AND b", .binary (.connective .and) (.reference "c") (.reference "b"), 3⟩] := by
  have hif : Registry.Accepts ("if", 3) := ⟨_, rfl, rfl⟩
  have hb : Parser.parse (.ofList ["u"]) "u < 0.5" =
      .ok (.binary (.comparison .less) (.reference "u") (.number 0.5)) := by
    refine Parser.parse_of_repr (by decide +kernel) ?_ ?_ (by decide) ⟨by decide, ?_, by decide⟩
    · simp only [Expr.Flat]
      decide +kernel
    · simp only [Expr.Writable]
      decide +kernel
    · simp [Expr.calls]
  have hc : Parser.parse (.ofList ["u", "b"]) "if(u, b, NOT b)" =
      .ok (.call "if" [.reference "u", .reference "b", .not (.reference "b")]) := by
    refine Parser.parse_of_repr (by decide) ?_ ?_ (by decide) ⟨by decide, ?_, by decide⟩
    · simp only [Expr.Flat, Expr.FlatAll]
      decide
    · simp only [Expr.Writable, Expr.WritableAll]
      decide
    · simpa [Expr.calls, Expr.callsAll] using hif
  have hn : Parser.parse (.ofList ["u", "b", "c"]) "c AND b" =
      .ok (.binary (.connective .and) (.reference "c") (.reference "b")) := by
    refine Parser.parse_of_repr (by decide) ?_ ?_ (by decide) ⟨by decide, ?_, by decide⟩
    · simp only [Expr.Flat]
      decide
    · simp only [Expr.Writable]
      decide
    · simp [Expr.calls]
  have hu := @Accepted.concat [] ⟨"u", "uniform(0, 1)"⟩ _ .nil (by decide) (by decide)
    (Parser.parse_uniform _)
  have hb := @Accepted.concat _ ⟨"b", "u < 0.5"⟩ _ hu (by decide) (by decide) hb
  have hc := @Accepted.concat _ ⟨"c", "if(u, b, NOT b)"⟩ _ hb (by decide) (by decide) hc
  have hn := @Accepted.concat _ ⟨"n", "c AND b"⟩ _ hc (by decide) (by decide) hn
  exact cells_parse hn (by decide +kernel)

/-- A cell that chooses between a boolean cell and a negation, and a cell that reads it. -/
theorem samples_of_booleanFormula_choose :
    let d := parse "[u = uniform(0, 1)]\n[b = u < 0.5]\n[c = if(u, b, NOT b)]\n[n = c AND b]"
    ∃ results column b, d.simulateOn { iterations := 2, seed := 7 } (fun _ => false) [] =
        some (.ok results) ∧ results.get? "c" = some column ∧ column.length = 2 ∧
      (∀ x ∈ column, x = 0 ∨ x = 1) ∧ column[1]? = some (Value.boolean b).asNumber ∧
      ∃ values s, Reached d.cells 7 1 3 values s ∧
        (bound d.cells 3 values).get? "c" = some (.boolean b) := by
  intro d
  have hcells := cells_parse_boolean
  have hb : d.cells[1]? = some _ := congrArg (·[1]?) hcells
  have hc : d.cells[2]? = some _ := congrArg (·[2]?) hcells
  have hn : d.cells[3]? = some _ := congrArg (·[3]?) hcells
  have hformula := BooleanFormula.choose (d := d) (.reference "u")
    (.reference (List.mem_of_getElem? hb) (.comparison ..)) (.not (.reference "b"))
  have hok : (d.simulateOn { iterations := 2, seed := 7 } (fun _ => false) []).map Except.isOk =
      some true := by
    unfold simulateOn
    rw [hcells]
    decide +kernel
  obtain ⟨results, hresults⟩ := exists_of_isOk hok
  obtain ⟨column, hget, hlen, hsamples, hread⟩ := samples_of_booleanFormula hresults hc hformula
  obtain ⟨b, hvalue, hlater⟩ := hread 1 (by decide)
  exact ⟨results, column, b, hresults, hget, hlen, hsamples, hvalue, hlater 3 _ (by decide) hn⟩

end Document

end EstimateSheet
