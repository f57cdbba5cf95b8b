import EstimateSheet.Proofs.Acceptance
import EstimateSheet.Proofs.EvalErrors
import EstimateSheet.Proofs.Success

/-!
# Values by their numbers

A boolean is used as the number `1` or `0`, and whether a value holds follows from its number
(`Value.holds_eq`). So an evaluation cannot tell a boolean from that number: from bindings that are
alike but for this it has the same error, or values that are alike, and draws the same words
(`Expr.eval_alike`). `choose` is the one function that passes a value on as it is.

In an iteration the values of the cells can therefore be replaced by their samples. Carried out
again with the recorded samples bound, it gives these samples (`replay_of_fillRow`).
-/

namespace EstimateSheet

namespace Value

/-- The same number, which may be a boolean on one side. -/
def Alike (v w : Value) : Prop := v.asNumber = w.asNumber

/-- Whether a value holds is seen from its number. -/
theorem holds_eq : ∀ v : Value, v.holds = (!v.asNumber.isZero && !v.asNumber.isNaN)
  | number _ => rfl
  | boolean true => by decide +kernel
  | boolean false => by decide +kernel

theorem Alike.holds_eq {v w : Value} (h : v.Alike w) : v.holds = w.holds := by
  rw [Value.holds_eq, Value.holds_eq, h]

end Value

namespace Bindings

/-- The same names are bound, to values that are alike. -/
def Alike (b b' : Bindings) : Prop :=
  ∀ name, (b.get? name).map Value.asNumber = (b'.get? name).map Value.asNumber

theorem Alike.set {b b' : Bindings} (h : b.Alike b') (name : String) {v w : Value}
    (hv : v.Alike w) : (b.set name v).Alike (b'.set name w) := by
  intro other
  rw [get?_set, get?_set]
  split
  · rw [Option.map_some, Option.map_some, hv]
  · exact h other

end Bindings

namespace Evaluation

variable {α β γ δ : Type}

/-- The outcomes of two evaluations of one kind: neither ends, or both have the same error, or they
have results that are related; and what is left of the source is the same. -/
inductive Related (R : α → β → Prop) : Option (Except FormulaError α × Source) →
    Option (Except FormulaError β × Source) → Prop where
  | hang : Related R none none
  | error (e : FormulaError) (rest : Source) :
      Related R (some (.error e, rest)) (some (.error e, rest))
  | ok {a : α} {b : β} (rest : Source) : R a b → Related R (some (.ok a, rest)) (some (.ok b, rest))

theorem Related.mono {R S : α → β → Prop} {x : Option (Except FormulaError α × Source)}
    {y : Option (Except FormulaError β × Source)} (h : Related R x y)
    (hRS : ∀ a b, R a b → S a b) : Related S x y := by
  cases h with
  | hang => exact .hang
  | error e rest => exact .error e rest
  | ok rest hab => exact .ok rest (hRS _ _ hab)

theorem Related.exists_ok {R : α → β → Prop} {x : Option (Except FormulaError α × Source)}
    {y : Option (Except FormulaError β × Source)} {a : α} {rest : Source} (h : Related R x y)
    (hx : x = some (.ok a, rest)) : ∃ b, y = some (.ok b, rest) ∧ R a b := by
  cases h with
  | hang => cases hx
  | error e rest => cases hx
  | ok rest hab =>
    cases hx
    exact ⟨_, rfl, hab⟩

/-- From every source the two have related outcomes. -/
def Alike (R : α → β → Prop) (x : Evaluation α) (y : Evaluation β) : Prop :=
  ∀ s, Related R (x.run s) (y.run s)

variable {R : α → β → Prop} {Q : γ → δ → Prop}

theorem alike_pure {a : α} {b : β} (h : R a b) : Alike R (pure a) (pure b) := fun s => .ok s h

theorem alike_throw (e : FormulaError) : Alike R (throw e) (throw e) := fun s => .error e s

theorem alike_self {R : α → α → Prop} (hR : ∀ a, R a a) (x : Evaluation α) : Alike R x x := by
  intro s
  rcases x.run s with _ | ⟨e | a, rest⟩
  · exact .hang
  · exact .error e rest
  · exact .ok rest (hR a)

theorem Alike.bind {x : Evaluation α} {y : Evaluation β} {f : α → Evaluation γ}
    {g : β → Evaluation δ} (h : Alike R x y) (hf : ∀ a b, R a b → Alike Q (f a) (g b)) :
    Alike Q (x >>= f) (y >>= g) := by
  intro s
  rw [run_bind, run_bind]
  have hs := h s
  generalize x.run s = outcome at hs ⊢
  generalize y.run s = outcome' at hs ⊢
  cases hs with
  | hang => exact .hang
  | error e rest => exact .error e rest
  | ok rest hab => exact hf _ _ hab rest

end Evaluation

open Evaluation

namespace Builtin

section

variable {args args' : List Value} (h : args.map Value.asNumber = args'.map Value.asNumber)

include h

theorem getElem?_alike (i : Nat) :
    args[i]?.map Value.asNumber = args'[i]?.map Value.asNumber := by
  rw [← List.getElem?_map, h, List.getElem?_map]

theorem argument_congr (i : Nat) : argument args i = argument args' i := by
  rw [argument, getElem?_alike h, argument]

/-- Of two alike arguments the same one is chosen, with its own tag. -/
theorem chosen_alike : (chosen args).Alike (chosen args') := by
  have hholds : args[0]?.map Value.holds = args'[0]?.map Value.holds := by
    have hview : ∀ v : Option Value, v.map Value.holds =
        (v.map Value.asNumber).map fun x => !x.isZero && !x.isNaN := by
      intro v
      rw [Option.map_map]
      exact congrArg (Option.map · v) (funext Value.holds_eq)
    rw [hview, hview, getElem?_alike h]
  have hget : ∀ i : Nat, (args[i]?.getD (Value.number .absent)).Alike
      (args'[i]?.getD (Value.number .absent)) := by
    intro i
    have hi := getElem?_alike h i
    generalize args[i]? = v at hi ⊢
    generalize args'[i]? = w at hi ⊢
    rcases v with _ | v <;> rcases w with _ | w
    · rfl
    · cases hi
    · cases hi
    · exact Option.some.inj hi
  unfold chosen
  rw [hholds]
  dsimp only
  split
  · exact hget 1
  · exact hget 2

/-- All functions but one see their arguments as numbers only. -/
theorem apply_congr {f : Builtin} (hf : f ≠ .choose) : f.apply args = f.apply args' := by
  unfold apply
  rw [argument_congr h 0, argument_congr h 1, argument_congr h 2, h]
  cases f with
  | choose => exact absurd rfl hf
  | _ => rfl

theorem apply_alike (f : Builtin) : Alike Value.Alike (f.apply args) (f.apply args') := by
  by_cases hf : f = .choose
  · subst hf
    exact alike_pure (chosen_alike h)
  · rw [apply_congr h hf]
    exact alike_self (R := Value.Alike) (fun _ => rfl) _

end

end Builtin

namespace Expr

variable {b b' : Bindings}

mutual

/-- Bindings that are alike give evaluations that are alike. -/
theorem eval_alike (h : b.Alike b') : ∀ e : Expr, Alike Value.Alike (e.eval b) (e.eval b')
  | .number x => by
    rw [eval, eval]
    exact alike_pure rfl
  | .reference name => by
    rw [eval, eval]
    have hname := h name
    generalize b.get? name = v at hname ⊢
    generalize b'.get? name = w at hname ⊢
    rcases v with _ | v <;> rcases w with _ | w
    · exact alike_throw _
    · cases hname
    · cases hname
    · exact alike_pure (Option.some.inj hname)
  | .binary (.arithmetic op) left right => by
    rw [eval, eval]
    refine (eval_alike h left).bind fun x x' hx => (eval_alike h right).bind fun y y' hy => ?_
    rw [show x.asNumber = x'.asNumber from hx, show y.asNumber = y'.asNumber from hy]
    exact alike_pure rfl
  | .binary (.comparison op) left right => by
    rw [eval, eval]
    refine (eval_alike h left).bind fun x x' hx => (eval_alike h right).bind fun y y' hy => ?_
    rw [show x.asNumber = x'.asNumber from hx, show y.asNumber = y'.asNumber from hy]
    exact alike_pure rfl
  | .binary (.connective op) left right => by
    rw [eval, eval]
    refine (eval_alike h left).bind fun x x' hx => ?_
    rw [hx.holds_eq]
    -- both leave the right operand out, or neither does
    split
    · exact alike_pure rfl
    · refine (eval_alike h right).bind fun y y' hy => ?_
      rw [hy.holds_eq]
      exact alike_pure rfl
  | .not operand => by
    rw [eval, eval]
    refine (eval_alike h operand).bind fun x x' hx => ?_
    rw [hx.holds_eq]
    exact alike_pure rfl
  | .call function args => by
    rw [eval, eval]
    rcases Registry.standard.find? function with _ | entry
    · exact alike_throw _
    · dsimp only
      rcases Registry.checkArity function entry args.length with e | ⟨⟩
      · exact alike_throw _
      · exact (evalAll_alike h args).bind fun vs ws hvs => Builtin.apply_alike hvs entry.function

theorem evalAll_alike (h : b.Alike b') : ∀ es : List Expr,
    Alike (fun vs ws => vs.map Value.asNumber = ws.map Value.asNumber) (evalAll b es)
      (evalAll b' es)
  | [] => by
    rw [evalAll, evalAll]
    exact alike_pure rfl
  | e :: es => by
    rw [evalAll, evalAll]
    refine (eval_alike h e).bind fun v w hv => (evalAll_alike h es).bind fun vs ws hvs => ?_
    refine alike_pure ?_
    rw [List.map_cons, List.map_cons, hvs, show v.asNumber = w.asNumber from hv]

end

end Expr

namespace Simulation

/-- Evaluate cells as an iteration does, but bind each to the sample recorded for it and not to the
value it has. -/
def replay : List Cell → List Number → Bindings → Source → Outcome (List Number)
  | cell :: cells, x :: recorded, b, s =>
    match (cell.expr.eval b).run s with
    | none => none
    | some (.error e, _) => some (.error (.evaluation cell.name e))
    | some (.ok value, s) =>
      match replay cells recorded (b.set cell.name (.number x)) s with
      | some (.ok row) => some (.ok (value.asNumber :: row))
      | failure => failure
  | _, recorded, _, _ => some (.ok recorded)

/-- Carry out iteration `i` again with the samples that it left in a row. -/
def replayIteration (cells : List Cell) (seed : UInt64) (i : Nat) (row : List Number) :
    Outcome (List Number) :=
  replay cells row .empty (.ofSeed (iterationSeed seed (UInt64.ofNat i)))

theorem replay_of_fillRow : ∀ {cells : List Cell} {slots row : List Number} {b b' : Bindings}
    {s : Source}, b.Alike b' → fillRow cells slots b s = some (.ok row) →
    replay cells row b' s = some (.ok row)
  | [], slots, row, b, b', s, _, h => by
    rw [replay]
    exact nofun
  | cell :: cells, [], row, b, b', s, _, h => by
    obtain rfl : row = [] := by simpa [fillRow] using h.symm
    rfl
  | cell :: cells, slot :: slots, row, b, b', s, hb, h => by
    have heval := Expr.eval_alike hb cell.expr s
    rw [fillRow] at h
    rcases hv : (cell.expr.eval b).run s with _ | ⟨e | v, rest⟩
    · simp [hv] at h
    · simp [hv] at h
    · obtain ⟨w, hw, hvw⟩ := heval.exists_ok hv
      rcases hr : fillRow cells slots (b.set cell.name v) rest with _ | e | row'
      · simp [hv, hr] at h
      · simp [hv, hr] at h
      · obtain rfl : row = v.asNumber :: row' := by simpa [hv, hr] using h.symm
        have hbound : (b.set cell.name v).Alike (b'.set cell.name (.number v.asNumber)) :=
          hb.set cell.name rfl
        simp only [replay, hw, replay_of_fillRow hbound hr]
        rw [show v.asNumber = w.asNumber from hvw]

theorem replayIteration_of_runIteration {cells : List Cell} {seed : UInt64} {i : Nat}
    {slots row : List Number} (h : runIteration cells seed i slots = some (.ok row)) :
    replayIteration cells seed i row = some (.ok row) :=
  replay_of_fillRow (fun _ => rfl) h

end Simulation

open Simulation

namespace Document

/-- The samples that a run records from an iteration are those of the iteration carried out on its
own. -/
theorem exists_row_of_simulateOn {d : Document} {options : Options} {cancelled : Nat → Bool}
    {schedule : List Nat} {results : Results}
    (h : d.simulateOn options cancelled schedule = some (.ok results)) {i : Nat}
    (hi : i < options.iterations) :
    ∃ row, runIteration d.cells options.seed i (emptyRow d.cells) = some (.ok row) ∧
      results.samples.map (·.values[i]?) = row.map some := by
  obtain ⟨hcompletes, columns, hc, rfl⟩ := simulateOn_eq_ok_iff.1 h
  obtain ⟨row, hrow⟩ := hcompletes.rows i (hcompletes.all i hi)
  have hrun := (attempt_eq_ok.1 hrow).2
  obtain ⟨hlength, hvalues⟩ := runIteration_ok d.nodup length_emptyRow hrun
  obtain ⟨hlen, hcolumns⟩ := runSequential_ok d.nodup (runSequential_uncancelled hc)
  refine ⟨row, hrun, List.ext_getElem? fun k => ?_⟩
  rw [List.getElem?_map, List.getElem?_map, results, List.getElem?_zipWith]
  rcases Nat.lt_or_ge k d.cells.length with hk | hk
  · obtain ⟨column, hcolumn, -, hsamples⟩ := hcolumns k hk
    obtain ⟨value, hy, hx⟩ := hsamples i hi
    obtain ⟨value', hy', hx'⟩ := hvalues k hk
    obtain rfl := hy.unique hy'
    simp only [List.getElem?_eq_getElem hk, hcolumn, hx', Option.map_some, Array.getElem?_toList,
      hx]
  · rw [List.getElem?_eq_none hk, List.getElem?_eq_none (l := row) (by omega)]
    rfl

/-- A boolean is observed as its number alone. Evaluations from alike bindings have one error, or
values with the same number that hold alike, and leave the same source. So an iteration carried out
again with its recorded samples bound gives them once more, on its own and as a part of a run. -/
theorem observed_as_number :
    (∀ (e : Expr) (b b' : Bindings), b.Alike b' → ∀ s : Source,
      Related (fun v w => v.asNumber = w.asNumber ∧ v.holds = w.holds) ((e.eval b).run s)
        ((e.eval b').run s)) ∧
    (∀ (cells : List Cell) (seed : UInt64) (i : Nat) (slots row : List Number),
      runIteration cells seed i slots = some (.ok row) →
        replayIteration cells seed i row = some (.ok row)) ∧
    ∀ (d : Document) (options : Options) (cancelled : Nat → Bool) (schedule : List Nat)
      (results : Results), d.simulateOn options cancelled schedule = some (.ok results) →
      ∀ i < options.iterations, ∃ row, results.samples.map (·.values[i]?) = row.map some ∧
        replayIteration d.cells options.seed i row = some (.ok row) := by
  refine ⟨fun e b b' h s => ?_, fun cells seed i slots row => replayIteration_of_runIteration,
    fun d options cancelled schedule results h i hi => ?_⟩
  · exact (Expr.eval_alike h e s).mono fun v w hvw => ⟨hvw, hvw.holds_eq⟩
  · obtain ⟨row, hrun, hrow⟩ := exists_row_of_simulateOn h hi
    exact ⟨row, hrow, replayIteration_of_runIteration hrun⟩

theorem observed_as_number_choose :
    let e : Expr :=
      .call "if" [.reference "x", .reference "x", .call "uniform" [.number 0, .number 1]]
    let cells : List Cell :=
      [⟨"x", "1 < 2", .binary (.comparison .less) (.number 1) (.number 2), 0⟩,
        ⟨"y", "if(x, x, uniform(0, 1))", e, 1⟩]
    let d := parse "[k = 2]\n[u = uniform(0, 1)]\n[b = k]\n[v = uniform(0, 1)]"
    Related (fun v w => v.asNumber = w.asNumber ∧ v.holds = w.holds)
      ((e.eval (Bindings.empty.set "x" (.boolean true))).run (.ofSeed 7))
      ((e.eval (Bindings.empty.set "x" (.number 1))).run (.ofSeed 7)) ∧
    (∃ row, runIteration cells 7 3 (emptyRow cells) = some (.ok row) ∧
      replayIteration cells 7 3 row = some (.ok row)) ∧
    ∃ results row,
      d.simulateOn { iterations := 2, seed := 7 } (fun _ => false) [] = some (.ok results) ∧
      results.samples.map (·.values[1]?) = row.map some ∧
      replayIteration d.cells 7 1 row = some (.ok row) := by
  intro e cells d
  obtain ⟨heval, hreplay, hrun⟩ := observed_as_number
  have hb : (Bindings.empty.set "x" (.boolean true)).Alike (Bindings.empty.set "x" (.number 1)) :=
    .set (fun _ => rfl) "x" rfl
  have hrow : (runIteration cells 7 3 (emptyRow cells)).map Except.isOk = some true := by
    decide +kernel
  obtain ⟨row, hrow⟩ := exists_of_isOk hrow
  have hok : (d.simulateOn { iterations := 2, seed := 7 } (fun _ => false) []).map Except.isOk =
      some true := by
    unfold simulateOn
    rw [cells_parse_uniform]
    decide +kernel
  obtain ⟨results, hresults⟩ := exists_of_isOk hok
  obtain ⟨row', hsamples, hagain⟩ := hrun _ _ _ _ _ hresults 1 (by decide)
  exact ⟨heval e _ _ hb _, ⟨row, hrow, hreplay _ _ _ _ _ hrow⟩, results, row', hresults, hsamples,
    hagain⟩

end Document

end EstimateSheet
