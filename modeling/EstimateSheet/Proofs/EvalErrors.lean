import EstimateSheet.Proofs.EvalSteps

/-!
# Errors of evaluation

An error of an expression points at something in it: a name that it reads and that is not bound, a
call of a function that is not registered or with a number of arguments the function does not take,
or a call of `percentile` (`Expr.accounted_of_eval`). It never says that a formula is not well
formed.
-/

namespace EstimateSheet

namespace Evaluation

variable {α β : Type}

/-- An evaluation after another goes on from the source that is left, unless there was an error. -/
theorem run_bind (x : Evaluation α) (f : α → Evaluation β) (s : Source) :
    (x >>= f).run s =
      match x.run s with
      | none => none
      | some (.error e, rest) => some (.error e, rest)
      | some (.ok a, rest) => (f a).run rest := by
  simp only [bind, ExceptT.bind, ExceptT.mk, ExceptT.run, StateT.bind]
  rcases x s with _ | ⟨e | a, rest⟩ <;> rfl

theorem run_bind_eq_error {x : Evaluation α} {f : α → Evaluation β} {s rest : Source}
    {e : FormulaError} (h : (x >>= f).run s = some (.error e, rest)) :
    x.run s = some (.error e, rest) ∨
      ∃ a s', x.run s = some (.ok a, s') ∧ (f a).run s' = some (.error e, rest) := by
  rw [run_bind] at h
  rcases hx : x.run s with _ | ⟨e' | a, s'⟩
  · simp [hx] at h
  · simp only [hx, Option.some.injEq, Prod.mk.injEq, Except.error.injEq] at h
    exact .inl (by rw [h.1, h.2])
  · simp only [hx] at h
    exact .inr ⟨a, s', rfl, h⟩

theorem run_bind_eq_ok {x : Evaluation α} {f : α → Evaluation β} {s rest : Source} {b : β}
    (h : (x >>= f).run s = some (.ok b, rest)) :
    ∃ a s', x.run s = some (.ok a, s') ∧ (f a).run s' = some (.ok b, rest) := by
  rw [run_bind] at h
  rcases hx : x.run s with _ | ⟨e | a, s'⟩
  · simp [hx] at h
  · simp [hx] at h
  · simp only [hx] at h
    exact ⟨a, s', rfl, h⟩

theorem run_pure_ne_error {a : α} {s rest : Source} {e : FormulaError} :
    (pure a : Evaluation α).run s ≠ some (.error e, rest) := nofun

theorem pure_ne_throw {a : α} {e : FormulaError} : (pure a : Evaluation α) ≠ throw e := fun h =>
  nomatch congrFun h (Source.ofWords [])

theorem eq_of_run_throw {s rest : Source} {e e' : FormulaError}
    (h : (throw e : Evaluation α).run s = some (.error e', rest)) : e' = e := by
  cases h
  rfl

end Evaluation

open Evaluation

namespace Builtin

theorem run_sampled (draw : Sampler Number) (s : Source) :
    (sampled draw).run s = (draw s).map fun (x, rest) => (.ok (.number x), rest) := by
  have hlift : (liftM draw : Evaluation Number).run s =
      (draw s).map fun (x, rest) => (.ok x, rest) := by
    simp only [liftM, monadLift, MonadLift.monadLift, ExceptT.lift, ExceptT.run, ExceptT.mk,
      Functor.map, StateT.map]
    rcases draw s with _ | ⟨x, rest⟩ <;> rfl
  unfold sampled
  rw [run_bind, hlift]
  rcases draw s with _ | ⟨x, rest⟩ <;> rfl

theorem run_sampled_ne_error {draw : Sampler Number} {s rest : Source} {e : FormulaError} :
    (sampled draw).run s ≠ some (.error e, rest) := by
  rw [run_sampled]
  rcases draw s with _ | ⟨x, s'⟩ <;> nofun

theorem map_rest_sampled (draw : Sampler Number) (compute : Number → Number) (s : Source) :
    ((sampled (do pure (compute (← draw)))).run s).map Prod.snd = (draw s).map Prod.snd := by
  rw [run_sampled]
  simp only [bind, StateT.bind]
  rcases draw s with _ | ⟨x, rest⟩ <;> rfl

/-- The draw that a function makes at each call, before it looks at its arguments. -/
def draw? : Builtin → Option (Sampler Number)
  | normal => some Sampler.standardNormal
  | boundedNormal => some Sampler.bell
  | uniform => some Sampler.unit
  | triangular => some Sampler.unit
  | _ => none

theorem isStochastic_eq (f : Builtin) : f.isStochastic = f.draw?.isSome := by cases f <;> rfl

/-- A call has a value, or it is one of `percentile` and fails for what it says about its first
argument, or it computes a number from the draw that is made. -/
theorem apply_cases (args : List Value) : ∀ f : Builtin,
    (∃ value, f.draw? = none ∧ f.apply args = pure value) ∨
    (f = .percentile ∧ f.apply args = throw (.percentileRange (argument args 0))) ∨
    ∃ draw, ∃ compute : Number → Number, f.draw? = some draw ∧
      f.apply args = sampled (do pure (compute (← draw)))
  | .percentile => by
    rcases hp : Statistics.percentile? (argument args 0) (args.map Value.asNumber).tail with _ | x
    · refine .inr (.inl ⟨rfl, ?_⟩)
      simp only [apply, hp]
    · refine .inl ⟨.number x, rfl, ?_⟩
      simp only [apply, hp]
  | .normal | .boundedNormal | .uniform | .triangular => .inr (.inr ⟨_, _, rfl, rfl⟩)
  | .choose | .round | .log | .exp | .sin | .cos | .tan | .min | .max | .mean | .median
  | .stdev => .inl ⟨_, rfl, rfl⟩

theorem eq_of_run_apply {f : Builtin} {args : List Value} {s rest : Source} {e : FormulaError}
    (h : (f.apply args).run s = some (.error e, rest)) :
    f = .percentile ∧ e = .percentileRange (argument args 0) := by
  rcases apply_cases args f with ⟨value, -, hvalue⟩ | ⟨hf, hrange⟩ | ⟨draw, compute, -, hdrawn⟩
  · rw [hvalue] at h
    exact absurd h run_pure_ne_error
  · rw [hrange] at h
    exact ⟨hf, eq_of_run_throw h⟩
  · rw [hdrawn] at h
    exact absurd h run_sampled_ne_error

end Builtin

namespace Registry

/-- Every registered function has its own name and its own number of arguments. -/
theorem eq_of_find? {name : String} {entry : RegistryEntry} (h : standard.find? name = some entry) :
    name = entry.function.name ∧ entry.arity = entry.function.arity := by
  have hall : ∀ fs : List Builtin,
      (fs.map fun f => (f.name, RegistryEntry.mk f.arity f)).lookup name = some entry →
      name = entry.function.name ∧ entry.arity = entry.function.arity := by
    intro fs
    induction fs with
    | nil => exact nofun
    | cons f fs ih =>
      intro h
      rw [List.map_cons, List.lookup_cons] at h
      split at h
      next heq =>
        cases h
        exact ⟨beq_iff_eq.1 heq, rfl⟩
      next => exact ih h
  exact hall _ h

end Registry

/-- What the error of an expression says holds of the names it reads and the calls in it. -/
inductive Accounted (b : Bindings) (occurrences : List String) (calls : List (String × Nat)) :
    FormulaError → Prop where
  | undefinedVariable {name} : name ∈ occurrences → b.get? name = none →
      Accounted b occurrences calls (.undefinedVariable name)
  | unknownFunction {function count} : (function, count) ∈ calls →
      Registry.standard.find? function = none →
      Accounted b occurrences calls (.unknownFunction function)
  | argumentCount {function count entry} : (function, count) ∈ calls →
      Registry.standard.find? function = some entry → entry.arity.accepts count = false →
      Accounted b occurrences calls (.argumentCount function entry.arity count)
  | percentileRange {count x} : ("percentile", count) ∈ calls →
      Accounted b occurrences calls (.percentileRange x)

namespace Expr

variable {b : Bindings}

/-- A step gives no error but its own, and going on from it none but that of what comes next. -/
theorem accounted_steps (e : Expr) :
    Steps (fun x => ∀ {s rest error}, x.run s = some (.error error, rest) →
      Accounted b e.occurrences e.calls error) b e.occurrences e.calls where
  value _ _ _ _ h := absurd h run_pure_ne_error
  unbound hname hb s rest error h := by
    obtain rfl := eq_of_run_throw h
    exact .undefinedVariable hname hb
  unregistered hcall hf s rest error h := by
    obtain rfl := eq_of_run_throw h
    exact .unknownFunction hcall hf
  miscounted hcall hf ha s rest error h := by
    obtain rfl := eq_of_run_throw h
    exact .argumentCount hcall hf ha
  called {function count entry} hcall hf args s rest error h := by
    obtain ⟨hpercentile, rfl⟩ := Builtin.eq_of_run_apply h
    have hname : function = "percentile" := by
      rw [(Registry.eq_of_find? hf).1, hpercentile]
      rfl
    subst hname
    exact .percentileRange hcall
  next hx hf s rest error h := by
    rcases run_bind_eq_error h with h | ⟨a, s', -, h⟩
    · exact hx h
    · exact hf a h

theorem accounted_of_eval (e : Expr) {s rest : Source} {error : FormulaError}
    (h : (e.eval b).run s = some (.error error, rest)) :
    Accounted b e.occurrences e.calls error :=
  e.accounted_steps.eval e (List.Subset.refl _) (List.Subset.refl _) h

end Expr

end EstimateSheet
