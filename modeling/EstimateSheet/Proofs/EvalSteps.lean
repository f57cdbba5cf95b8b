import EstimateSheet.Formula.Eval
import EstimateSheet.Proofs.Admission

/-!
# The steps of an evaluation

An evaluation is made of a few kinds of steps: it comes to a value, fails at a name that is not
bound or at a call that may not be made, calls a function, or goes on from one evaluation to the
next. A property of these that is kept in going on (`Steps`) is one of the evaluation of every
expression with these names and calls (`Steps.eval`).
-/

namespace EstimateSheet

namespace Evaluation

/-- The steps of an evaluation in which the names are read and the calls are made have the property,
and going on from one to the next keeps it. -/
structure Steps (P : ∀ {α : Type}, Evaluation α → Prop) (b : Bindings) (names : List String)
    (calls : List (String × Nat)) : Prop where
  value {α : Type} (a : α) : P (pure a : Evaluation α)
  unbound {name : String} : name ∈ names → b.get? name = none →
    P (throw (.undefinedVariable name) : Evaluation Value)
  unregistered {function : String} {count : Nat} : (function, count) ∈ calls →
    Registry.standard.find? function = none →
    P (throw (.unknownFunction function) : Evaluation Value)
  miscounted {function : String} {count : Nat} {entry : RegistryEntry} :
    (function, count) ∈ calls → Registry.standard.find? function = some entry →
    entry.arity.accepts count = false →
    P (throw (.argumentCount function entry.arity count) : Evaluation Value)
  called {function : String} {count : Nat} {entry : RegistryEntry} : (function, count) ∈ calls →
    Registry.standard.find? function = some entry → ∀ args, P (entry.function.apply args)
  next {α β : Type} {x : Evaluation α} {f : α → Evaluation β} : P x → (∀ a, P (f a)) → P (x >>= f)

namespace Steps

variable {P : ∀ {α : Type}, Evaluation α → Prop} {b : Bindings} {names : List String}
  {calls : List (String × Nat)}

theorem eval_call (h : Steps P b names calls) {function : String} {args : List Expr}
    (hcall : (function, args.length) ∈ calls) (hargs : P (Expr.evalAll b args)) :
    P ((Expr.call function args).eval b) := by
  rw [Expr.eval]
  rcases hf : Registry.standard.find? function with _ | entry
  · exact h.unregistered hcall hf
  · dsimp only
    unfold Registry.checkArity
    by_cases ha : entry.arity.accepts args.length = true
    · rw [if_pos ha]
      exact h.next hargs (h.called hcall hf)
    · rw [if_neg ha]
      exact h.miscounted hcall hf (Bool.eq_false_iff.2 ha)

mutual

theorem eval (h : Steps P b names calls) : ∀ e : Expr, e.occurrences ⊆ names → e.calls ⊆ calls →
    P (e.eval b)
  | .number x, _, _ => by
    rw [Expr.eval]
    exact h.value _
  | .reference name, hn, _ => by
    rw [Expr.eval]
    rcases hb : b.get? name with _ | value
    · exact h.unbound (hn (by simp [Expr.occurrences])) hb
    · exact h.value _
  | .binary op left right, hn, hc => by
    rw [Expr.occurrences, List.append_subset] at hn
    rw [Expr.calls, List.append_subset] at hc
    have hl := h.eval left hn.1 hc.1
    have hr := h.eval right hn.2 hc.2
    rcases op with op | op | op
    · rw [Expr.eval]
      exact h.next hl fun x => h.next hr fun y => h.value _
    · rw [Expr.eval]
      exact h.next hl fun x => h.next hr fun y => h.value _
    · rw [Expr.eval]
      refine h.next hl fun x => ?_
      -- the right operand is not evaluated if the left one decides
      split
      · exact h.value _
      · exact h.next hr fun y => h.value _
  | .not operand, hn, hc => by
    rw [Expr.eval]
    exact h.next (h.eval operand hn hc) fun x => h.value _
  | .call function args, hn, hc => by
    rw [Expr.calls, List.append_subset] at hc
    exact h.eval_call (hc.2 List.mem_cons_self) (h.evalAll args hn hc.1)

theorem evalAll (h : Steps P b names calls) : ∀ es : List Expr, Expr.occurrencesAll es ⊆ names →
    Expr.callsAll es ⊆ calls → P (Expr.evalAll b es)
  | [], _, _ => by
    rw [Expr.evalAll]
    exact h.value _
  | e :: es, hn, hc => by
    rw [Expr.occurrencesAll, List.append_subset] at hn
    rw [Expr.callsAll, List.append_subset] at hc
    rw [Expr.evalAll]
    exact h.next (h.eval e hn.1 hc.1) fun value => h.next (h.evalAll es hn.2 hc.2) fun values =>
      h.value _

end

end Steps

end Evaluation

end EstimateSheet
