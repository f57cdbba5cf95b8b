import EstimateSheet.Proofs.EvalErrors

/-!
# What an evaluation depends on

An evaluation reads the bindings only at the names that stand in the expression, so two bindings
that agree there give the same evaluation (`Expr.eval_congr`). An expression that calls no function
drawing random words draws none, and has the same outcome from every source (`Expr.still_eval`).
-/

namespace EstimateSheet

namespace Bindings

/-- The names with a property are bound alike, or not at all. -/
def AgreeOn (P : String → Prop) (b b' : Bindings) : Prop :=
  ∀ name, P name → b.get? name = b'.get? name

namespace AgreeOn

variable {P : String → Prop} {b b' b'' : Bindings}

theorem symm (h : AgreeOn P b b') : AgreeOn P b' b := fun name hname => (h name hname).symm

theorem trans (h : AgreeOn P b b') (h' : AgreeOn P b' b'') : AgreeOn P b b'' :=
  fun name hname => (h name hname).trans (h' name hname)

theorem set (h : AgreeOn P b b') (name : String) (value : Value) :
    AgreeOn P (b.set name value) (b'.set name value) := by
  intro other hother
  rw [get?_set, get?_set, h other hother]

theorem of_set {name : String} (hname : ¬ P name) (b : Bindings) (value : Value) :
    AgreeOn P (b.set name value) b := by
  intro other hother
  have hne : ¬ (other == name) = true := by
    rw [beq_iff_eq]
    rintro rfl
    exact hname hother
  rw [get?_set, if_neg hne]

end AgreeOn

end Bindings

namespace Evaluation

variable {α β : Type}

/-- No random words are drawn, and the outcome is the same from every source. -/
def Still (x : Evaluation α) : Prop :=
  ∃ outcome : Except FormulaError α, ∀ s, x.run s = some (outcome, s)

theorem still_pure (a : α) : Still (pure a) := ⟨.ok a, fun _ => rfl⟩

theorem still_throw (e : FormulaError) : Still (throw e : Evaluation α) := ⟨.error e, fun _ => rfl⟩

theorem Still.bind {x : Evaluation α} {f : α → Evaluation β} (hx : Still x)
    (hf : ∀ a, Still (f a)) : Still (x >>= f) := by
  obtain ⟨e | a, hx⟩ := hx
  · refine ⟨.error e, fun s => ?_⟩
    rw [run_bind, hx s]
  · obtain ⟨outcome, hfa⟩ := hf a
    refine ⟨outcome, fun s => ?_⟩
    rw [run_bind, hx s]
    exact hfa s

/-- A value from some source is the value from every source. -/
theorem Still.run_eq {x : Evaluation α} (h : Still x) {s rest : Source} {a : α}
    (ha : x.run s = some (.ok a, rest)) : rest = s ∧ ∀ s', x.run s' = some (.ok a, s') := by
  obtain ⟨outcome, hx⟩ := h
  rw [hx s, Option.some.injEq, Prod.mk.injEq] at ha
  obtain ⟨rfl, rfl⟩ := ha
  exact ⟨rfl, hx⟩

end Evaluation

open Evaluation

/-- A function draws random words only if it is said to. -/
theorem Builtin.still_apply {f : Builtin} (h : f.isStochastic = false) (args : List Value) :
    Still (f.apply args) := by
  rcases apply_cases args f with ⟨value, -, hvalue⟩ | ⟨-, hrange⟩ | ⟨draw, compute, hf, -⟩
  · rw [hvalue]
    exact still_pure _
  · rw [hrange]
    exact still_throw _
  · rw [isStochastic_eq, hf] at h
    cases h

namespace Expr

section Names

variable {b b' : Bindings}

mutual

theorem eval_congr : ∀ (e : Expr), b.AgreeOn (· ∈ e.occurrences) b' → e.eval b = e.eval b'
  | .number x, _ => by rw [eval, eval]
  | .reference name, h => by rw [eval, eval, h name (by simp [occurrences])]
  | .binary op left right, h => by
    have hl := eval_congr left fun name hname => h name (List.mem_append_left _ hname)
    have hr := eval_congr right fun name hname => h name (List.mem_append_right _ hname)
    rcases op with op | op | op <;> rw [eval, eval, hl, hr]
  | .not operand, h => by rw [eval, eval, eval_congr operand h]
  | .call function args, h => by rw [eval, eval, evalAll_congr args h]

theorem evalAll_congr : ∀ (es : List Expr), b.AgreeOn (· ∈ occurrencesAll es) b' →
    evalAll b es = evalAll b' es
  | [], _ => by rw [evalAll, evalAll]
  | e :: es, h => by
    have he := eval_congr e fun name hname => h name (List.mem_append_left _ hname)
    have hes := evalAll_congr es fun name hname => h name (List.mem_append_right _ hname)
    rw [evalAll, evalAll, he, hes]

end

end Names

section Source

mutual

/-- Every function that is called in an expression that is not stochastic is not. -/
theorem not_stochastic_of_mem_calls {c : String × Nat} {entry : RegistryEntry}
    (hf : Registry.standard.find? c.1 = some entry) : ∀ e : Expr, e.isStochastic = false →
      c ∈ e.calls → entry.function.isStochastic = false
  | .number _, _, hc => nomatch hc
  | .reference _, _, hc => nomatch hc
  | .binary _ left right, h, hc => by
    rw [isStochastic, Bool.or_eq_false_iff] at h
    rw [calls, List.mem_append] at hc
    rcases hc with hc | hc
    · exact not_stochastic_of_mem_calls hf left h.1 hc
    · exact not_stochastic_of_mem_calls hf right h.2 hc
  | .not operand, h, hc => by
    rw [isStochastic] at h
    exact not_stochastic_of_mem_calls hf operand h hc
  | .call function args, h, hc => by
    rw [isStochastic, Bool.or_eq_false_iff] at h
    rw [calls, List.mem_append, List.mem_singleton] at hc
    rcases hc with hc | rfl
    · exact not_stochastic_of_mem_callsAll hf args h.2 hc
    · simpa [hf] using h.1

theorem not_stochastic_of_mem_callsAll {c : String × Nat} {entry : RegistryEntry}
    (hf : Registry.standard.find? c.1 = some entry) : ∀ es : List Expr, anyStochastic es = false →
      c ∈ callsAll es → entry.function.isStochastic = false
  | [], _, hc => nomatch hc
  | e :: es, h, hc => by
    rw [anyStochastic, Bool.or_eq_false_iff] at h
    rw [callsAll, List.mem_append] at hc
    rcases hc with hc | hc
    · exact not_stochastic_of_mem_calls hf e h.1 hc
    · exact not_stochastic_of_mem_callsAll hf es h.2 hc

end

theorem still_eval (b : Bindings) (e : Expr) (h : e.isStochastic = false) : Still (e.eval b) :=
  have hsteps : Steps (fun x => Still x) b e.occurrences e.calls :=
    { value := fun _ => still_pure _
      unbound := fun _ _ => still_throw _
      unregistered := fun _ _ => still_throw _
      miscounted := fun _ _ _ => still_throw _
      called := fun hcall hf => Builtin.still_apply (not_stochastic_of_mem_calls hf e h hcall)
      next := fun hx hf => hx.bind hf }
  hsteps.eval e (List.Subset.refl _) (List.Subset.refl _)

end Source

end Expr

end EstimateSheet
