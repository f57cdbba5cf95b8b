import EstimateSheet.Proofs.WordsRead

/-!
# The words an evaluation draws

A function draws its words before it looks at its arguments, so they do not change what is drawn
(`Builtin.map_rest_apply`), and in an expression without connectives no part is left out. So what is
drawn is told by the expression (`Expr.demand`, `Expr.draws_eval`): it is the same with all bindings
(`Expr.eval_aligned`), and it is something just if the expression is stochastic
(`Expr.eval_stochastic`).
-/

namespace EstimateSheet

namespace Sampler

variable {α β : Type}

/-- At least `k` words are drawn. -/
def DrawsAtLeast (k : Nat) (x : Sampler α) : Prop :=
  ∀ s a rest, x s = some (a, rest) → ∃ n, k ≤ n ∧ rest = s.skip n

theorem drawsAtLeast_pure (a : α) : DrawsAtLeast 0 (pure a) := by
  rintro s _ _ ⟨⟩
  exact ⟨0, Nat.le_refl 0, rfl⟩

theorem drawsAtLeast_word : DrawsAtLeast 1 word := by
  rintro s _ _ ⟨⟩
  exact ⟨1, Nat.le_refl 1, rfl⟩

namespace DrawsAtLeast

variable {k l : Nat} {x : Sampler α} {f : α → Sampler β}

theorem mono (hx : DrawsAtLeast k x) (hl : l ≤ k) : DrawsAtLeast l x := by
  intro s a rest h
  obtain ⟨n, hn, rfl⟩ := hx s a rest h
  exact ⟨n, by omega, rfl⟩

theorem bind (hx : DrawsAtLeast k x) (hf : ∀ a, DrawsAtLeast l (f a)) :
    DrawsAtLeast (k + l) (x >>= f) := by
  intro s b rest h
  rw [run_bind, Option.bind_eq_some_iff] at h
  obtain ⟨⟨a, rest'⟩, ha, hb⟩ := h
  obtain ⟨m, hm, rfl⟩ := hx s a rest' ha
  obtain ⟨n, hn, rfl⟩ := hf a _ b rest hb
  exact ⟨m + n, by omega, by simp⟩

theorem map (hx : DrawsAtLeast k x) (f : α → β) : DrawsAtLeast k (f <$> x) := by
  rw [map_eq_pure_bind]
  exact hx.bind fun a => drawsAtLeast_pure (f a)

theorem or {p q : Bool} (hx : DrawsAtLeast p.toNat x) (hf : ∀ a, DrawsAtLeast q.toNat (f a)) :
    DrawsAtLeast (p || q).toNat (x >>= f) := by
  refine (hx.bind hf).mono ?_
  cases p <;> simp

theorem redraw (hx : DrawsAtLeast k x) (accept : α → Bool) :
    ∀ tries, DrawsAtLeast k (redraw accept x tries)
  | 0 => nofun
  | tries + 1 => by
    rw [Sampler.redraw]
    refine hx.bind (l := 0) fun a => ?_
    split
    · exact drawsAtLeast_pure a
    · exact (hx.redraw accept tries).mono (Nat.zero_le k)

end DrawsAtLeast

theorem drawsAtLeast_unit : DrawsAtLeast 1 unit := drawsAtLeast_word.map _

theorem drawsAtLeast_standardNormal : DrawsAtLeast 1 standardNormal := by
  have hopen : DrawsAtLeast 1 openUnit := drawsAtLeast_unit.redraw _ _
  have hpair : DrawsAtLeast (1 + (1 + 0)) standardNormal :=
    hopen.bind fun _ => hopen.bind fun _ => drawsAtLeast_pure _
  exact hpair.mono (by omega)

theorem drawsAtLeast_bell : DrawsAtLeast 1 bell :=
  (drawsAtLeast_standardNormal.bind fun _ => drawsAtLeast_pure _).redraw _ _

end Sampler

open Sampler

namespace Evaluation

variable {α β : Type}

/-- An evaluation that has a value has drawn what the sampler draws. -/
def Draws (x : Evaluation α) (d : Sampler Unit) : Prop :=
  ∀ s a rest, x.run s = some (.ok a, rest) → d s = some ((), rest)

theorem draws_pure (a : α) : Draws (pure a) (pure ()) := by
  rintro s _ _ ⟨⟩
  rfl

theorem draws_throw (e : FormulaError) (d : Sampler Unit) : Draws (throw e : Evaluation α) d :=
  nofun

namespace Draws

variable {x : Evaluation α} {d d' : Sampler Unit}

theorem bind {f : α → Evaluation β} (hx : Draws x d) (hf : ∀ a, Draws (f a) d') :
    Draws (x >>= f) (do d; d') := by
  intro s b rest h
  obtain ⟨a, s', hxs, hfs⟩ := run_bind_eq_ok h
  rw [Sampler.run_bind, hx s a s' hxs]
  exact hf a s' b rest hfs

theorem bind_pure (hx : Draws x d) (f : α → β) : Draws (x >>= fun a => pure (f a)) d := by
  intro s b rest h
  obtain ⟨a, s', hxs, hpure⟩ := run_bind_eq_ok h
  cases hpure
  exact hx s a rest hxs

end Draws

end Evaluation

open Evaluation

namespace Builtin

/-- Draws what a function draws at each call. -/
def demand (f : Builtin) : Sampler Unit := f.draw?.elim (pure ()) Functor.discard

/-- The arguments of a function do not change what it draws. -/
theorem map_rest_apply (f : Builtin) (args : List Value) (s : Source) :
    ((f.apply args).run s).map Prod.snd = (f.demand s).map Prod.snd := by
  unfold demand
  rcases apply_cases args f with ⟨value, hf, hvalue⟩ | ⟨rfl, hrange⟩ | ⟨draw, compute, hf, hdrawn⟩
  · rw [hvalue, hf]
    rfl
  · rw [hrange]
    rfl
  · rw [hdrawn, hf, map_rest_sampled, Option.elim_some]
    simp only [Functor.discard, Functor.mapConst, Function.comp_apply, StateT.map]
    rcases draw s with _ | ⟨x, rest⟩ <;> rfl

theorem draws_apply (f : Builtin) (args : List Value) : Draws (f.apply args) f.demand := by
  intro s value rest h
  have hrest := f.map_rest_apply args s
  rw [h, Option.map_some] at hrest
  obtain ⟨⟨⟨⟩, _⟩, hdemand, rfl⟩ := Option.map_eq_some_iff.1 hrest.symm
  exact hdemand

theorem drawsAtLeast_draw : ∀ {f : Builtin} {draw : Sampler Number}, f.draw? = some draw →
    DrawsAtLeast 1 draw
  | .normal, _, rfl => drawsAtLeast_standardNormal
  | .boundedNormal, _, rfl => drawsAtLeast_bell
  | .uniform, _, rfl => drawsAtLeast_unit
  | .triangular, _, rfl => drawsAtLeast_unit

theorem drawsAtLeast_demand (f : Builtin) : DrawsAtLeast f.isStochastic.toNat f.demand := by
  rw [isStochastic_eq, demand]
  rcases hf : f.draw? with _ | draw
  · exact drawsAtLeast_pure ()
  · exact (drawsAtLeast_draw hf).map _

end Builtin

namespace Expr

mutual

/-- Has an operator that may leave its right operand out. -/
def hasConnective : Expr → Bool
  | number _ => false
  | reference _ => false
  | binary (.arithmetic _) left right => left.hasConnective || right.hasConnective
  | binary (.comparison _) left right => left.hasConnective || right.hasConnective
  | binary (.connective _) _ _ => true
  | not operand => operand.hasConnective
  | call _ args => anyHasConnective args

def anyHasConnective : List Expr → Bool
  | [] => false
  | e :: es => e.hasConnective || anyHasConnective es

end

mutual

/-- Draws what is drawn where no part of an expression is left out. -/
def demand : Expr → Sampler Unit
  | number _ => pure ()
  | reference _ => pure ()
  | binary _ left right => do left.demand; right.demand
  | not operand => operand.demand
  | call function args => do
    demandAll args
    (Registry.standard.find? function).elim (pure ()) (·.function.demand)

def demandAll : List Expr → Sampler Unit
  | [] => pure ()
  | e :: es => do e.demand; demandAll es

end

section Bindings

variable {b : Bindings}

theorem draws_eval_call {function : String} {args : List Expr}
    (hargs : Draws (evalAll b args) (demandAll args)) :
    Draws ((call function args).eval b) (call function args).demand := by
  rw [eval, demand]
  rcases Registry.standard.find? function with _ | entry
  · exact draws_throw _ _
  · dsimp only
    rcases Registry.checkArity function entry args.length with e | ⟨⟩
    · exact draws_throw _ _
    · exact hargs.bind fun values => entry.function.draws_apply values

mutual

theorem draws_eval : ∀ e : Expr, e.hasConnective = false → Draws (e.eval b) e.demand
  | .number x, _ => by
    rw [eval, demand]
    exact draws_pure _
  | .reference name, _ => by
    rw [eval, demand]
    rcases b.get? name with _ | value
    · exact draws_throw _ _
    · exact draws_pure _
  | .binary (.arithmetic op) left right, h => by
    rw [hasConnective, Bool.or_eq_false_iff] at h
    rw [eval, demand]
    exact (draws_eval left h.1).bind fun x => (draws_eval right h.2).bind_pure _
  | .binary (.comparison op) left right, h => by
    rw [hasConnective, Bool.or_eq_false_iff] at h
    rw [eval, demand]
    exact (draws_eval left h.1).bind fun x => (draws_eval right h.2).bind_pure _
  | .binary (.connective op) left right, h => by
    rw [hasConnective] at h
    cases h
  | .not operand, h => by
    rw [hasConnective] at h
    rw [eval, demand]
    exact (draws_eval operand h).bind_pure _
  | .call function args, h => by
    rw [hasConnective] at h
    exact draws_eval_call (draws_evalAll args h)

theorem draws_evalAll : ∀ es : List Expr, anyHasConnective es = false →
    Draws (evalAll b es) (demandAll es)
  | [], _ => by
    rw [evalAll, demandAll]
    exact draws_pure _
  | e :: es, h => by
    rw [anyHasConnective, Bool.or_eq_false_iff] at h
    rw [evalAll, demandAll]
    exact (draws_eval e h.1).bind fun value => (draws_evalAll es h.2).bind_pure _

end

end Bindings

theorem drawsAtLeast_demand_call {function : String} {args : List Expr}
    (hargs : DrawsAtLeast (anyStochastic args).toNat (demandAll args)) :
    DrawsAtLeast (call function args).isStochastic.toNat (call function args).demand := by
  rw [isStochastic, demand, Bool.or_comm]
  refine hargs.or fun _ => ?_
  rcases Registry.standard.find? function with _ | entry
  · exact drawsAtLeast_pure ()
  · exact entry.function.drawsAtLeast_demand

mutual

theorem drawsAtLeast_demand : ∀ e : Expr, DrawsAtLeast e.isStochastic.toNat e.demand
  | .number x => by
    rw [isStochastic, demand]
    exact drawsAtLeast_pure ()
  | .reference name => by
    rw [isStochastic, demand]
    exact drawsAtLeast_pure ()
  | .binary op left right => by
    rw [isStochastic, demand]
    exact (drawsAtLeast_demand left).or fun _ => drawsAtLeast_demand right
  | .not operand => by
    rw [isStochastic, demand]
    exact drawsAtLeast_demand operand
  | .call function args => drawsAtLeast_demand_call (drawsAtLeast_demandAll args)

theorem drawsAtLeast_demandAll : ∀ es : List Expr,
    DrawsAtLeast (anyStochastic es).toNat (demandAll es)
  | [] => by
    rw [anyStochastic, demandAll]
    exact drawsAtLeast_pure ()
  | e :: es => by
    rw [anyStochastic, demandAll]
    exact (drawsAtLeast_demand e).or fun _ => drawsAtLeast_demandAll es

end

/-- Whether an expression is stochastic tells whether it draws random words. If it is not, its
evaluation draws none and comes to the same from every source, whatever the bindings are. If it is,
and no connective can leave out the call that is, each evaluation with a value draws at least
one. -/
theorem eval_stochastic (e : Expr) (b : Bindings) :
    (e.isStochastic = false → ∃ outcome, ∀ s, (e.eval b).run s = some (outcome, s)) ∧
    (e.isStochastic = true → e.hasConnective = false → ∀ s value rest,
      (e.eval b).run s = some (.ok value, rest) → ∃ n, 1 ≤ n ∧ rest = s.skip n) := by
  refine ⟨still_eval b e, fun he hfree s value rest hrun => ?_⟩
  have hleast := e.drawsAtLeast_demand
  rw [he] at hleast
  exact hleast s () rest (draws_eval e hfree s value rest hrun)

theorem eval_stochastic_uniform :
    let b := Bindings.empty.set "x" (.number 4)
    let still := call "max" [reference "x", reference "y"]
    let drawing := call "max" [reference "x", call "uniform" [number 0, reference "x"]]
    still.isStochastic = false ∧ drawing.isStochastic = true ∧
      (∃ outcome, ∀ s, (still.eval b).run s = some (outcome, s)) ∧
      ∃ value n, 1 ≤ n ∧
        (drawing.eval b).run (.ofWords []) = some (.ok value, (Source.ofWords []).skip n) := by
  intro b still drawing
  have hstill : still.isStochastic = false := by decide
  have hdrawing : drawing.isStochastic = true := by decide
  obtain ⟨value, rest, hrun⟩ : ∃ value rest,
      (drawing.eval b).run (.ofWords []) = some (.ok value, rest) := ⟨_, _, rfl⟩
  obtain ⟨n, hn, rfl⟩ := (eval_stochastic drawing b).2 hdrawing rfl _ value rest hrun
  exact ⟨hstill, hdrawing, (eval_stochastic still b).1 hstill, value, n, hn, hrun⟩

/-- The words stay aligned whatever the data is. Two evaluations of an expression without
connectives that have values, with any bindings, draw as many words. So does a function with any
arguments. -/
theorem eval_aligned (e : Expr) (s : Source) :
    (e.hasConnective = false → ∀ b b' value value' rest rest',
      (e.eval b).run s = some (.ok value, rest) → (e.eval b').run s = some (.ok value', rest') →
      ∃ n, rest = s.skip n ∧ rest' = s.skip n) ∧
    ∀ (f : Builtin) args args',
      ((f.apply args).run s).map Prod.snd = ((f.apply args').run s).map Prod.snd := by
  refine ⟨fun hfree b b' value value' rest rest' h h' => ?_, fun f args args' => ?_⟩
  · have hdemand := draws_eval e hfree s value rest h
    have hdemand' := draws_eval e hfree s value' rest' h'
    rw [hdemand, Option.some.injEq] at hdemand'
    obtain ⟨-, rfl⟩ := Prod.mk.inj hdemand'
    obtain ⟨n, -, hn⟩ := e.drawsAtLeast_demand s () rest hdemand
    exact ⟨n, hn, hn⟩
  · rw [Builtin.map_rest_apply, Builtin.map_rest_apply]

/-- Both branches draw, whichever is chosen. The first word is refused. -/
theorem eval_aligned_branches :
    let e := call "if" [reference "x", call "normal" [number 0, reference "x"],
      call "uniform" [number 0, reference "x"]]
    let b := Bindings.empty.set "x" (.boolean true)
    let b' := Bindings.empty.set "x" (.number 0)
    let s := Source.ofWords [0]
    ∃ value value' n, (e.eval b).run s = some (.ok value, s.skip n) ∧
      (e.eval b').run s = some (.ok value', s.skip n) := by
  intro e b b' s
  have hok : ((e.eval b).run s).map (·.1.isOk) = some true := by decide +kernel
  have hok' : ((e.eval b').run s).map (·.1.isOk) = some true := by decide +kernel
  obtain ⟨value, rest, hrun⟩ := exists_of_isOk hok
  obtain ⟨value', rest', hrun'⟩ := exists_of_isOk hok'
  obtain ⟨n, rfl, rfl⟩ := (eval_aligned e s).1 rfl b b' value value' rest rest' hrun hrun'
  exact ⟨value, value', n, hrun, hrun'⟩

end Expr

end EstimateSheet
