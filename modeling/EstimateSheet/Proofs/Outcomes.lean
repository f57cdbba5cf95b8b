import EstimateSheet.Proofs.EvalErrors

/-!
# Outcomes of evaluation

What an evaluation can come to is told by the names and the calls of the expression: every error
points at one of them, and an evaluation that gives nothing at all has met a function that draws
again until it is satisfied (`Expr.redraws_of_eval`). If none of them gives a reason there is a
value (`Expr.eval_accounted`).
-/

namespace EstimateSheet

open Evaluation

namespace Evaluation

variable {α β : Type} {x : Evaluation α} {s : Source}

theorem run_bind_eq_none {f : α → Evaluation β} (h : (x >>= f).run s = none) :
    x.run s = none ∨ ∃ a s', x.run s = some (.ok a, s') ∧ (f a).run s' = none := by
  rw [run_bind] at h
  rcases hx : x.run s with _ | ⟨e | a, s'⟩
  · exact .inl rfl
  · simp [hx] at h
  · simp only [hx] at h
    exact .inr ⟨a, s', rfl, h⟩

theorem run_pure_ne_none {a : α} : (pure a : Evaluation α).run s ≠ none := nofun

theorem run_throw_ne_none {e : FormulaError} : (throw e : Evaluation α).run s ≠ none := nofun

end Evaluation

namespace Builtin

/-- Draws again until a draw is accepted, at every call. -/
def redraws : Builtin → Bool
  | normal => true
  | boundedNormal => true
  | _ => false

theorem redraws_of_draw : ∀ {f : Builtin} {draw : Sampler Number} {s : Source},
    f.draw? = some draw → draw s = none → f.redraws = true
  | .normal, _, _, _, _ => rfl
  | .boundedNormal, _, _, _, _ => rfl
  | .uniform, _, _, rfl, h => nomatch h
  | .triangular, _, _, rfl, h => nomatch h

/-- Only a function that redraws can give nothing. -/
theorem redraws_of_run_apply {f : Builtin} {args : List Value} {s : Source}
    (h : (f.apply args).run s = none) : f.redraws = true := by
  rcases apply_cases args f with ⟨value, -, hvalue⟩ | ⟨-, hrange⟩ | ⟨draw, compute, hf, hdrawn⟩
  · rw [hvalue] at h
    exact absurd h run_pure_ne_none
  · rw [hrange] at h
    exact absurd h run_throw_ne_none
  · have hrest := map_rest_sampled draw compute s
    rw [← hdrawn, h, Option.map_none, eq_comm, Option.map_eq_none_iff] at hrest
    exact redraws_of_draw hf hrest

end Builtin

namespace Expr

variable {b : Bindings} {s : Source}

/-- One of the calls is of a function that redraws. -/
def Redraws (calls : List (String × Nat)) : Prop :=
  ∃ function count, (function, count) ∈ calls ∧
    ∃ entry, Registry.standard.find? function = some entry ∧ entry.function.redraws = true

/-- Only a call gives nothing, or what comes next. -/
theorem redraws_steps (e : Expr) :
    Steps (fun x => ∀ {s}, x.run s = none → Redraws e.calls) b e.occurrences e.calls where
  value _ _ h := absurd h run_pure_ne_none
  unbound _ _ _ h := absurd h run_throw_ne_none
  unregistered _ _ _ h := absurd h run_throw_ne_none
  miscounted _ _ _ _ h := absurd h run_throw_ne_none
  called {function count entry} hcall hf _ _ h :=
    ⟨function, count, hcall, entry, hf, Builtin.redraws_of_run_apply h⟩
  next hx hf s h := by
    rcases run_bind_eq_none h with h | ⟨a, s', -, h⟩
    · exact hx h
    · exact hf a h

theorem redraws_of_eval (e : Expr) (h : (e.eval b).run s = none) : Redraws e.calls :=
  e.redraws_steps.eval e (List.Subset.refl _) (List.Subset.refl _) h

/-- Every outcome of an evaluation is accounted for. The error of an undefined variable names one
that the expression reads and that is not bound; that of an unknown function one that the expression
calls and that is not registered; that of a number of arguments a call in the expression with just
as many, which the function does not take; and that of a percentile tells of a call of `percentile`.
There are no other errors, and there is no outcome at all only where a function redraws. So if all
names are bound, all calls may be made and none is of `percentile`, an evaluation that ends has a
value. -/
theorem eval_accounted (e : Expr) (b : Bindings) (s : Source) :
    (match (e.eval b).run s with
      | none => Redraws e.calls
      | some (.ok _, _) => True
      | some (.error (.undefinedVariable name), _) => name ∈ e.names ∧ b.get? name = none
      | some (.error (.unknownFunction function), _) =>
        (∃ count, (function, count) ∈ e.calls) ∧ Registry.standard.find? function = none
      | some (.error (.argumentCount function arity count), _) => (function, count) ∈ e.calls ∧
        ∃ entry, Registry.standard.find? function = some entry ∧ arity = entry.arity ∧
          arity.accepts count = false
      | some (.error (.percentileRange _), _) => ∃ count, ("percentile", count) ∈ e.calls
      | some (.error (.unrecognized _), _) => False
      | some (.error (.malformed _), _) => False) ∧
    ((∀ name ∈ e.names, b.get? name ≠ none) → (∀ c ∈ e.calls, Registry.Accepts c) →
      (∀ count, ("percentile", count) ∉ e.calls) →
      (∃ value rest, (e.eval b).run s = some (.ok value, rest)) ∨
        (e.eval b).run s = none ∧ Redraws e.calls) := by
  have hnames : ∀ name, name ∈ e.names ↔ name ∈ e.occurrences := fun name => List.mem_eraseDups
  rcases hrun : (e.eval b).run s with _ | ⟨error | value, rest⟩
  · exact ⟨redraws_of_eval e hrun, fun _ _ _ => .inr ⟨rfl, redraws_of_eval e hrun⟩⟩
  · cases e.accounted_of_eval hrun with
    | undefinedVariable hm hb =>
      rw [← hnames] at hm
      exact ⟨⟨hm, hb⟩, fun hbound _ _ => absurd hb (hbound _ hm)⟩
    | unknownFunction hm hf =>
      refine ⟨⟨⟨_, hm⟩, hf⟩, fun _ hcalls _ => ?_⟩
      obtain ⟨entry, hentry, -⟩ := hcalls _ hm
      rw [hf] at hentry
      cases hentry
    | argumentCount hm hf ha =>
      refine ⟨⟨hm, _, hf, rfl, ha⟩, fun _ hcalls _ => ?_⟩
      obtain ⟨entry, hentry, hacc⟩ := hcalls _ hm
      rw [hf, Option.some.injEq] at hentry
      rw [← hentry, ha] at hacc
      cases hacc
    | percentileRange hm => exact ⟨⟨_, hm⟩, fun _ _ hnone => absurd hm (hnone _)⟩
  · exact ⟨trivial, fun _ _ _ => .inl ⟨value, rest, rfl⟩⟩

/-- A call of `round` has a value where its argument does. -/
theorem eval_accounted_round : ∃ value rest, ((call "round" [reference "x"]).eval
    (Bindings.empty.set "x" (.number 1))).run (.ofWords []) = some (.ok value, rest) := by
  have hnames : (call "round" [reference "x"]).names = ["x"] := by decide
  have hcalls : (call "round" [reference "x"]).calls = [("round", 1)] := rfl
  have haccepts : Registry.Accepts ("round", 1) := ⟨⟨.exactly 1, .round⟩, by decide, by decide⟩
  have hvalue := (eval_accounted (call "round" [reference "x"])
    (Bindings.empty.set "x" (.number 1)) (.ofWords [])).2
  rw [hnames, hcalls] at hvalue
  rcases hvalue (List.forall_mem_singleton.2 nofun) (List.forall_mem_singleton.2 haccepts)
    (fun count hm => by simp at hm) with h | ⟨-, hr⟩
  · exact h
  · obtain ⟨function, count, hm, entry, hentry, hredraws⟩ := hr
    obtain ⟨rfl, -⟩ := Prod.mk.inj (List.mem_singleton.1 hm)
    have hround : Registry.standard.find? "round" = some ⟨.exactly 1, .round⟩ := by decide
    rw [hround, Option.some.injEq] at hentry
    rw [← hentry] at hredraws
    cases hredraws

end Expr

end EstimateSheet
