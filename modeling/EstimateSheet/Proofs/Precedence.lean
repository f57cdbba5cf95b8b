import EstimateSheet.Proofs.Grouping

/-!
# Trees that need no groupings

A tree is flat if precedence and association to the left alone tell its parts: a left operand has
operators that bind at least as tightly, a right operand has tighter ones, and `NOT` stands at the
beginning of an expression. The tokens of a flat tree are a phrase of the grammar with this tree
(`Expr.Flat.derives`). As the grammar has at most one tree for a row of tokens, its text is read as
the tree itself or not at all (`Parser.parse_repr_of_flat`).
-/

namespace EstimateSheet

theorem Layer.level_inj {layer layer' : Layer} (h : layer.level = layer'.level) :
    layer = layer' := by
  cases layer <;> cases layer' <;> first | rfl | cases h

theorem Layer.level_bounds (layer : Layer) : 0 < layer.level ∧ layer.level ≤ 6 := by
  cases layer <;> decide

theorem Phrase.rank_inj {p p' : Phrase} (h : p.rank = p'.rank) : p = p' := by
  rcases p with _ | layer | _ <;> rcases p' with _ | layer' | _ <;> simp only [rank] at h
  · rfl
  · have := layer'.level_bounds
    omega
  · cases h
  · have := layer.level_bounds
    omega
  · rw [Layer.level_inj h]
  · have := layer.level_bounds
    omega
  · cases h
  · have := layer'.level_bounds
    omega
  · rfl

theorem Phrase.rank_chain (layer : Layer) : (chain layer).rank = layer.level := rfl

theorem Layer.rank_operand (layer : Layer) : layer.operand.rank + 1 = layer.level := by
  cases layer <;> rfl

theorem Operator.exists_layer (op : Operator) : ∃ layer : Layer, layer.level = op.level := by
  rcases op with op | op | op
  · cases op
    · exact ⟨.sum, rfl⟩
    · exact ⟨.sum, rfl⟩
    · exact ⟨.product, rfl⟩
    · exact ⟨.product, rfl⟩
    · exact ⟨.product, rfl⟩
    · exact ⟨.power, rfl⟩
  · exact ⟨.comparison, rfl⟩
  · cases op
    · exact ⟨.conjunction, rfl⟩
    · exact ⟨.disjunction, rfl⟩

theorem Operator.level_le (op : Operator) : op.level ≤ topLevel := by
  obtain ⟨layer, h⟩ := op.exists_layer
  exact h ▸ layer.level_bounds.2

section Derives

variable {n : Nat} {ts rs : List Token} {e r : Expr} {layer : Layer}

/-- A phrase of a tighter layer is one of a looser layer without operators. -/
theorem Derives.loosen {p : Phrase} (h : Derives n p ts e) (hp : p ≠ .expression) :
    ∀ {p' : Phrase}, p.rank ≤ p'.rank → Derives n p' ts e
  | .expression, _ => by
    have hrank : p.rank ≤ (Phrase.chain .disjunction).rank := by
      rcases p with _ | layer | _
      · exact absurd rfl hp
      · exact layer.level_bounds.2
      · exact Nat.zero_le _
    exact .plain (h.loosen hp hrank)
  | .chain layer, hle => by
    have hoperand := layer.rank_operand
    have hchain := Phrase.rank_chain layer
    rcases Nat.eq_or_lt_of_le hle with heq | hlt
    · rw [← Phrase.rank_inj heq]
      exact h
    · have hd : Derives n layer.operand ts e := h.loosen hp (by omega)
      have hc := Derives.chain hd .done
      rwa [List.append_nil] at hc
  | .factor, hle => by
    rw [← Phrase.rank_inj (Nat.le_antisymm hle (Nat.zero_le _))]
    exact h
termination_by p' => p'.rank
decreasing_by
  · decide
  · omega

/-- A name is a phrase of any kind. -/
theorem Derives.name {t : Token} {p : Phrase} (ht : t.isName = true) :
    Derives n p [t] (.reference t.text) := by
  have h : Derives n .factor [t] (.reference t.text) := .reference ht
  exact h.loosen nofun (Nat.zero_le _)

/-- A grouped expression is a phrase of any kind. -/
theorem Derives.grouped {p : Phrase} (h : Derives n .expression ts e) :
    Derives (n + 1) p (⟨"("⟩ :: (ts ++ [⟨")"⟩])) e := by
  have hgroup : Derives (n + 1) .factor (⟨"("⟩ :: (ts ++ [⟨")"⟩])) e := .group rfl h rfl
  exact hgroup.loosen nofun (Nat.zero_le _)

theorem Continues.concat {t : Token} {op : Operator} (ht : (t.text, op) ∈ layer.operators)
    (hr : Derives n layer.operand rs r) : ∀ {ts : List Token} {more : List (Operator × Expr)},
    Continues n layer ts more → Continues n layer (ts ++ t :: rs) (more ++ [(op, r)])
  | _, _, .done => by
    have h := Continues.more ht hr .done
    rwa [List.append_nil] at h
  | _, _, .more ht' hd hc => by
    have h := Continues.more ht' hd (hc.concat ht hr)
    rwa [← List.append_assoc] at h

/-- A further operator of a layer takes the chain before it as its left operand. -/
theorem Derives.binary (op : Operator) {l : Expr} (hop : op.level = layer.level)
    (hl : Derives n (.chain layer) ts l) (hr : Derives n layer.operand rs r) :
    Derives n (.chain layer) (ts ++ ⟨op.sign⟩ :: rs) (.binary op l r) := by
  have hmem : (Token.text ⟨op.sign⟩, op) ∈ layer.operators := Layer.mem_operators_iff.2 ⟨rfl, hop⟩
  cases hl with
  | chain hd hc =>
    have h := Derives.chain hd (hc.concat hmem hr)
    rwa [← List.append_assoc, Expr.chained, List.foldl_append] at h

end Derives

namespace Expr

mutual

/-- The number of argument lists around the innermost part. -/
def nesting : Expr → Nat
  | number _ => 0
  | reference _ => 0
  | binary _ left right => max left.nesting right.nesting
  | not operand => operand.nesting
  | call _ args => nestings args

def nestings : List Expr → Nat
  | [] => 0
  | e :: es => max (e.nesting + 1) (nestings es)

end

mutual

/-- No part needs parentheses to keep it together. The operators have at most the given level; a
level above that of all operators also admits `NOT`. An infinite number has no numeral. -/
def Flat : Nat → Expr → Prop
  | _, number x => x.isFinite = true
  | _, reference _ => True
  | level, binary op left right => op.level ≤ level ∧ left.Flat op.level ∧ right.Flat (op.level - 1)
  | level, not operand => Operator.topLevel < level ∧ operand.Flat Operator.topLevel
  | _, call _ args => FlatAll args

def FlatAll : List Expr → Prop
  | [] => True
  | e :: es => e.Flat (Operator.topLevel + 1) ∧ FlatAll es

end

theorem Flat.mono {level level' : Nat} (hle : level ≤ level') : ∀ {e : Expr}, e.Flat level →
    e.Flat level'
  | .number x, h => by
    rw [Flat] at h ⊢
    exact h
  | .reference name, _ => by
    rw [Flat]
    trivial
  | .binary op left right, h => by
    rw [Flat] at h ⊢
    exact ⟨h.1.trans hle, h.2⟩
  | .not operand, h => by
    rw [Flat] at h ⊢
    exact ⟨h.1.trans_le hle, h.2⟩
  | .call function args, h => by
    rw [Flat] at h ⊢
    exact h

mutual

/-- The tokens of a flat tree are a phrase with this tree. -/
theorem Flat.derives : ∀ {e : Expr} {level n : Nat} {p : Phrase}, e.Flat level → e.Writable →
    e.nesting ≤ n → level ≤ p.rank → Derives n p e.tokens e
  | .number x, level, n, p, h, hw, _, _ => by
    rw [Flat] at h
    rw [Writable] at hw
    have hd : Derives n .factor [⟨x.toString⟩] (.number (Token.value ⟨x.toString⟩)) :=
      .number (Number.isNumber_toString h hw.1)
    rw [Number.value_toString h hw.1] at hd
    exact hd.loosen nofun (Nat.zero_le _)
  | .reference name, level, n, p, _, hw, _, _ => by
    rw [Writable] at hw
    exact .name hw
  | .binary op left right, level, n, p, h, hw, hn, hlevel => by
    rw [Flat] at h
    rw [Writable] at hw
    rw [nesting] at hn
    obtain ⟨layer, hlayer⟩ := op.exists_layer
    have hoperand := layer.rank_operand
    have hl : Derives n (.chain layer) left.tokens left :=
      h.2.1.derives hw.1 (by omega) hlayer.ge
    have hr : Derives n layer.operand right.tokens right :=
      h.2.2.derives hw.2 (by omega) (by omega)
    rw [tokens]
    exact (hl.binary op hlayer.symm hr).loosen nofun (hlayer.trans_le (h.1.trans hlevel))
  | .not operand, level, n, p, h, hw, hn, hlevel => by
    rw [Flat] at h
    rw [Writable] at hw
    rw [nesting] at hn
    obtain rfl : p = .expression := by
      rcases p with _ | layer | _
      · rfl
      · exact absurd (h.1.trans_le hlevel) (Nat.not_lt.2 layer.level_bounds.2)
      · exact absurd (h.1.trans_le hlevel) (Nat.not_lt_zero _)
    rw [tokens]
    exact .negation rfl (h.2.derives hw hn (Nat.le_refl _))
  | .call function [], level, n, p, _, hw, _, _ => by
    rw [Writable] at hw
    have hd : Derives n .factor [⟨function⟩, ⟨"("⟩, ⟨")"⟩] (.call function []) :=
      .emptyCall hw.1 rfl rfl
    exact hd.loosen nofun (Nat.zero_le _)
  | .call function (e :: es), level, n, p, h, hw, hn, _ => by
    rw [Flat] at h
    rw [Writable] at hw
    rw [nesting] at hn
    -- there is an argument, so the call is enclosed by less than the phrase may hold
    obtain ⟨m, rfl⟩ : ∃ m, n = m + 1 := Nat.exists_eq_add_one.2 (by rw [nestings] at hn; omega)
    have hargs := FlatAll.derives h hw.2 hn nofun
    rw [tokens]
    have hd : Derives (m + 1) .factor (⟨function⟩ :: ⟨"("⟩ :: (tokensAll (e :: es) ++ [⟨")"⟩]))
        (.call function (e :: es)) := .call hw.1 rfl hargs rfl
    exact hd.loosen nofun (Nat.zero_le _)

theorem FlatAll.derives : ∀ {es : List Expr} {n : Nat}, FlatAll es → WritableAll es →
    nestings es ≤ n + 1 → es ≠ [] → Separated n (tokensAll es) es
  | [], _, _, _, _, hne => absurd rfl hne
  | [e], n, h, hw, hn, _ => by
    rw [FlatAll] at h
    rw [WritableAll] at hw
    rw [nestings] at hn
    rw [tokensAll]
    exact .one (h.1.derives hw.1 (by omega) (Nat.le_refl _))
  | e :: e' :: es, n, h, hw, hn, _ => by
    rw [FlatAll] at h
    rw [WritableAll] at hw
    rw [nestings] at hn
    have hes := FlatAll.derives h.2 hw.2 (by omega : nestings (e' :: es) ≤ n + 1) nofun
    rw [tokensAll]
    · exact .more (h.1.derives hw.1 (by omega) (Nat.le_refl _)) rfl hes
    · exact nofun

end

end Expr

namespace Parser

variable {names : Names}

/-- A row of tokens with a tree in the grammar is read as this tree or not at all. -/
theorem parseTokens_of_derives {ts : List Token} {e e' : Expr}
    (hd : Derives (maxDepth - 1) .expression ts e) :
    parseTokens names ts = .ok e' ↔ e' = e ∧ e.Admissible names := by
  constructor
  · intro h
    obtain ⟨node, hr, rfl⟩ := (parseTokens_eq_ok names).1 h
    have hunique := outline_readPhrase names hd 0 [] (by decide) .nil
    rw [List.append_nil, hr] at hunique
    obtain ⟨node', ha, hnode⟩ := bind_eq_ok.1 (outline_eq_ok.1 hunique.symm)
    simp only [Except.ok.injEq, Prod.mk.injEq, and_true] at hnode
    obtain ⟨rfl, hadmissible⟩ := (e.toNode_eq_ok node').1 ha
    rw [← hnode]
    exact ⟨rfl, hadmissible⟩
  · rintro ⟨rfl, ha⟩
    exact parseTokens_complete hd ha

/-- A flat tree is read from its text, unless it is refused. -/
theorem parse_repr_of_flat {e e' : Expr} (h : e.Flat (Operator.topLevel + 1)) (hw : e.Writable)
    (hn : e.nesting < maxDepth) :
    parse names e.repr = .ok e' ↔ e' = e ∧ e.Admissible names := by
  have hd : Derives (maxDepth - 1) .expression e.tokens e :=
    h.derives hw (Nat.le_sub_one_of_lt hn) (Nat.le_refl _)
  rw [parse, Expr.scan_repr hw]
  exact parseTokens_of_derives hd

theorem parse_of_repr {formula : String} {e : Expr} (hrepr : e.repr = formula)
    (h : e.Flat (Operator.topLevel + 1)) (hw : e.Writable) (hn : e.nesting < maxDepth)
    (ha : e.Admissible names) : parse names formula = .ok e :=
  hrepr ▸ (parse_repr_of_flat h hw hn).2 ⟨rfl, ha⟩

end Parser

end EstimateSheet
