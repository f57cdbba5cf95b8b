import EstimateSheet.Proofs.Agreement
import EstimateSheet.Proofs.EvalSteps

/-!
# What an evaluation reads

A sampler is causal if it looks at no random word beyond those it draws (`Sampler.Causal`): from
another source whose next words are the same it has the same result and draws as many. A word drawn
is causal, and so is what is drawn one after the other, or again and again until it is accepted. So
an evaluation is causal (`Expr.causal_eval`), and of the bindings it reads those of the names in the
expression only (`Expr.eval_of_agreeFor`).
-/

namespace EstimateSheet

namespace Source

/-- The source after `n` more words have been drawn. -/
def skip (s : Source) (n : Nat) : Source := ⟨s.stream, s.drawn + n⟩

@[simp] theorem skip_skip (s : Source) (m n : Nat) : (s.skip m).skip n = s.skip (m + n) := by
  simp [skip, Nat.add_assoc]

/-- The next `n` words of the two sources are the same. -/
def AgreeFor (n : Nat) (s s' : Source) : Prop :=
  ∀ i < n, s.stream (s.drawn + i) = s'.stream (s'.drawn + i)

namespace AgreeFor

variable {m n : Nat} {s s' : Source}

theorem symm (h : AgreeFor n s s') : AgreeFor n s' s := fun i hi => (h i hi).symm

theorem left (h : AgreeFor (m + n) s s') : AgreeFor m s s' := fun i hi => h i (by omega)

theorem right (h : AgreeFor (m + n) s s') : AgreeFor n (s.skip m) (s'.skip m) := by
  intro i hi
  simpa [skip, Nat.add_assoc] using h (m + i) (by omega)

end AgreeFor

end Source

namespace Sampler

variable {α β : Type}

/-- The words drawn decide the result and how many they are. -/
def Causal (x : Sampler α) : Prop :=
  ∀ s a rest, x s = some (a, rest) →
    ∃ n, rest = s.skip n ∧ ∀ s', s.AgreeFor n s' → x s' = some (a, s'.skip n)

theorem causal_pure (a : α) : Causal (pure a) := by
  rintro s _ _ ⟨⟩
  exact ⟨0, rfl, fun _ _ => rfl⟩

theorem causal_word : Causal word := by
  rintro s _ _ ⟨⟩
  refine ⟨1, rfl, fun s' h => ?_⟩
  have h0 : s.word = s'.word := h 0 Nat.one_pos
  rw [h0]
  rfl

theorem causal_hang : Causal (fun _ => none : Sampler α) := nofun

theorem run_bind (x : Sampler α) (f : α → Sampler β) (s : Source) :
    (x >>= f) s = (x s).bind fun (a, rest) => f a rest := rfl

theorem Causal.bind {x : Sampler α} {f : α → Sampler β} (hx : Causal x) (hf : ∀ a, Causal (f a)) :
    Causal (x >>= f) := by
  intro s b rest h
  rw [run_bind, Option.bind_eq_some_iff] at h
  obtain ⟨⟨a, rest'⟩, ha, hb⟩ := h
  obtain ⟨m, rfl, hm⟩ := hx s a rest' ha
  obtain ⟨n, rfl, hn⟩ := hf a _ b rest hb
  refine ⟨m + n, by simp, fun s' hs => ?_⟩
  rw [run_bind, hm s' hs.left, Option.bind_some, ← Source.skip_skip]
  exact hn _ hs.right

theorem Causal.map {x : Sampler α} (hx : Causal x) (f : α → β) : Causal (f <$> x) := by
  rw [map_eq_pure_bind]
  exact hx.bind fun a => causal_pure (f a)

/-- A refused draw is looked at no more than an accepted one. -/
theorem Causal.redraw {x : Sampler α} (hx : Causal x) (accept : α → Bool) :
    ∀ tries, Causal (redraw accept x tries)
  | 0 => causal_hang
  | tries + 1 => by
    rw [Sampler.redraw]
    refine hx.bind fun a => ?_
    split
    · exact causal_pure a
    · exact hx.redraw accept tries

/-- Where all words to come are the same, nothing comes of a causal sampler either. -/
theorem Causal.eq_none {x : Sampler α} (hx : Causal x) {s s' : Source}
    (hs : ∀ n, s.AgreeFor n s') (h : x s = none) : x s' = none := by
  rcases hs' : x s' with _ | ⟨a, rest⟩
  · rfl
  · obtain ⟨n, -, hn⟩ := hx s' a rest hs'
    rw [hn s (hs n).symm] at h
    cases h

theorem causal_unit : Causal unit := causal_word.map _

theorem causal_standardNormal : Causal standardNormal :=
  have hopen : Causal openUnit := causal_unit.redraw _ _
  hopen.bind fun _ => hopen.bind fun _ => causal_pure _

theorem causal_bell : Causal bell :=
  (causal_standardNormal.bind fun _ => causal_pure _).redraw _ _

end Sampler

open Sampler

namespace Evaluation

variable {α β : Type}

theorem causal_bind {x : Evaluation α} {f : α → Evaluation β} (hx : Causal x.run)
    (hf : ∀ a, Causal (f a).run) : Causal (x >>= f).run := by
  rw [ExceptT.run_bind]
  refine hx.bind fun outcome => ?_
  rcases outcome with e | a
  · exact causal_pure _
  · exact hf a

theorem exists_of_isOk {x : Evaluation α} {s : Source}
    (h : (x.run s).map (·.1.isOk) = some true) : ∃ a rest, x.run s = some (.ok a, rest) := by
  rcases hx : x.run s with _ | ⟨e | a, rest⟩
  · simp [hx] at h
  · simp [hx, Except.isOk, Except.toBool] at h
  · exact ⟨a, rest, rfl⟩

end Evaluation

namespace Builtin

theorem causal_sampled {draw : Sampler Number} (h : Causal draw) : Causal (sampled draw).run :=
  Evaluation.causal_bind (h.map Except.ok) fun _ => causal_pure _

theorem causal_draw : ∀ {f : Builtin} {draw : Sampler Number}, f.draw? = some draw → Causal draw
  | .normal, _, rfl => causal_standardNormal
  | .boundedNormal, _, rfl => causal_bell
  | .uniform, _, rfl => causal_unit
  | .triangular, _, rfl => causal_unit

theorem causal_apply (f : Builtin) (args : List Value) : Causal (f.apply args).run := by
  rcases apply_cases args f with ⟨value, -, hvalue⟩ | ⟨-, hrange⟩ | ⟨draw, compute, hf, hdrawn⟩
  · rw [hvalue]
    exact causal_pure _
  · rw [hrange]
    exact causal_pure _
  · rw [hdrawn]
    exact causal_sampled ((causal_draw hf).bind fun x => causal_pure _)

end Builtin

namespace Expr

open Evaluation

/-- An evaluation looks at no random word beyond those it draws. -/
theorem causal_eval (b : Bindings) (e : Expr) : Causal (e.eval b).run :=
  have hsteps : Steps (fun x => Causal x.run) b e.occurrences e.calls :=
    { value := fun _ => causal_pure _
      unbound := fun _ _ => causal_pure _
      unregistered := fun _ _ => causal_pure _
      miscounted := fun _ _ _ => causal_pure _
      called := fun _ _ => Builtin.causal_apply _
      next := causal_bind }
  hsteps.eval e (List.Subset.refl _) (List.Subset.refl _)

/-- An evaluation depends on the names in the expression and on the words it draws. With other
bindings that agree on these names, and from another source that goes on with these words, it has
the same value or the same error and draws as many. If it comes to nothing, so does it there, where
all words are the same. -/
theorem eval_of_agreeFor (e : Expr) {b b' : Bindings} (hb : b.AgreeOn (· ∈ e.names) b')
    (s : Source) :
    (∀ outcome rest, (e.eval b).run s = some (outcome, rest) → ∃ n, rest = s.skip n ∧
      ∀ s', s.AgreeFor n s' → (e.eval b').run s' = some (outcome, s'.skip n)) ∧
    ((e.eval b).run s = none → ∀ s', (∀ n, s.AgreeFor n s') → (e.eval b').run s' = none) := by
  have hoccurrences : b.AgreeOn (· ∈ e.occurrences) b' := fun name hname =>
    hb name (List.mem_eraseDups.2 hname)
  rw [← eval_congr e hoccurrences]
  exact ⟨causal_eval b e s, fun hnone s' hs => (causal_eval b e).eq_none hs hnone⟩

/-- The first word is refused, and the words before and after those drawn do not count. -/
theorem eval_of_agreeFor_normal :
    let e := call "if" [reference "x", call "normal" [number 0, reference "y"], reference "x"]
    let b := (Bindings.empty.set "x" (.boolean true)).set "y" (.number 2)
    let b' := ((Bindings.empty.set "z" (.number 5)).set "y" (.number 2)).set "x" (.boolean true)
    let s := Source.ofWords [0, 7000000000000000000, 9000000000000000000]
    let s' := (Source.ofWords [1, 0, 7000000000000000000, 9000000000000000000, 2]).skip 1
    b.AgreeOn (· ∈ e.names) b' ∧ s.AgreeFor 3 s' ∧ ∃ value,
      (e.eval b).run s = some (.ok value, s.skip 3) ∧
      (e.eval b').run s' = some (.ok value, s'.skip 3) := by
  intro e b b' s s'
  have hnames : e.names = ["x", "y"] := by decide
  have hb : b.AgreeOn (· ∈ e.names) b' := by
    rw [hnames]
    exact List.forall_mem_cons.2 ⟨rfl, List.forall_mem_singleton.2 rfl⟩
  have hs : s.AgreeFor 3 s' := by
    unfold Source.AgreeFor
    decide
  have hok : ((e.eval b).run s).map (·.1.isOk) = some true := by decide +kernel
  have hdrawn : ((e.eval b).run s).map (·.2.drawn) = some 3 := by decide +kernel
  obtain ⟨value, rest, hrun⟩ := exists_of_isOk hok
  obtain ⟨n, rfl, hn⟩ := (eval_of_agreeFor e hb s).1 _ _ hrun
  rw [hrun] at hdrawn
  have hthree : (s.skip n).drawn = 3 := Option.some.inj hdrawn
  obtain rfl : n = 3 := (Nat.zero_add n).symm.trans hthree
  exact ⟨hb, hs, value, hrun, hn s' hs⟩

end Expr

end EstimateSheet
