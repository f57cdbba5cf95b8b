import EstimateSheet.Proofs.Brackets
import EstimateSheet.Proofs.ReadingComplete

/-!
# The limits on height and nesting

How deeply a phrase is nested can be read off its tokens: it is the greatest number of parentheses
that are open at a name or a numeral (`Derives.iff_nestingDepth_le`). Reading a well-formed
expression can fail in one way only (`Parser.refusesDepth_parseTokens`), and does so if the tree is
higher than 256 or the nesting deeper than 255 (`Parser.parseTokens_limits`). The whole expression
counts as one of the nested ones, so the deepest nesting that is accepted is one less than the
greatest height.
-/

namespace EstimateSheet

/-- The tokens that stand for themselves in a tree and keep nothing inside them. -/
def Token.isOperand (t : Token) : Bool := t.isName || t.isNumber

/-- The greatest number of parentheses that are open at a name or a numeral, if `opened` of them are
open before the tokens. -/
def deepest (opened : Int) : List Token → Nat
  | [] => 0
  | t :: ts => max (if t.isOperand then opened.toNat else 0) (deepest (opened + t.weight) ts)

section Deepest

variable {t opening closing : Token} {ts : List Token} {opened : Int}

theorem deepest_append (ts ts' : List Token) (opened : Int) :
    deepest opened (ts ++ ts') = max (deepest opened ts) (deepest (opened + depth ts) ts') := by
  induction ts generalizing opened with
  | nil => simp [deepest]
  | cons t ts ih => rw [List.cons_append, deepest, deepest, ih, depth_cons, max_assoc, add_assoc]

theorem deepest_cons_of_text {text : String} (h : t.text = text)
    (ht : Token.isOperand ⟨text⟩ = false) :
    deepest opened (t :: ts) = deepest (opened + t.weight) ts := by
  rw [deepest, Token.eq_of_text_eq h, ht, if_neg Bool.false_ne_true, Nat.zero_max]

theorem deepest_flat (h : t.text = "NOT" ∨ t.text = ",") :
    deepest opened (t :: ts) = deepest opened ts := by
  rcases h with h | h
  · rw [deepest_cons_of_text h (by decide), Token.eq_of_text_eq h]
    exact congrArg (deepest · ts) (add_zero opened)
  · rw [deepest_cons_of_text h (by decide), Token.eq_of_text_eq h]
    exact congrArg (deepest · ts) (add_zero opened)

theorem deepest_operator {layer : Layer} {op : Operator} (h : (t.text, op) ∈ layer.operators) :
    deepest opened (t :: ts) = deepest opened ts := by
  have hoperand : Token.isOperand ⟨op.sign⟩ = false := by
    rcases op with op | op | op <;> cases op <;> decide
  rw [deepest_cons_of_text (Layer.mem_operators_iff.1 h).1.symm hoperand,
    (Token.flat_of_operator h).weight, add_zero]

theorem deepest_bracketed (ho : opening.text = "(") (hc : closing.text = ")") (n : Nat) :
    deepest n (opening :: (ts ++ [closing])) = deepest (n + 1 : Nat) ts := by
  rw [deepest_cons_of_text ho (by decide), deepest_append, deepest_cons_of_text hc (by decide),
    Token.weight_opening ho, deepest, Nat.max_zero, Nat.cast_add_one]

theorem deepest_operand (h : t.isOperand = true) (n : Nat) :
    deepest n (t :: ts) = max n (deepest n ts) := by
  have hflat : t.Flat := Token.flat_of_begins (by simpa [Token.isOperand] using h)
  rw [deepest, h, if_pos rfl, Int.toNat_natCast, hflat.weight, add_zero]

end Deepest

/-- A balanced part keeps what is open, so the parts of a phrase can be looked at one by one. -/
theorem Balanced.deepest_append {ts : List Token} (h : Balanced ts) (ts' : List Token)
    (opened : Int) : deepest opened (ts ++ ts') = max (deepest opened ts) (deepest opened ts') := by
  rw [EstimateSheet.deepest_append, h.settled, add_zero]

mutual

/-- A phrase has a name or a numeral at its own level, and none deeper than it is nested. -/
theorem Derives.deepest_bounds {n : Nat} : ∀ {p : Phrase} {ts : List Token} {e : Expr},
    Derives n p ts e → ∀ opened : Nat, opened ≤ deepest opened ts ∧ deepest opened ts ≤ opened + n
  | _, _, _, .negation ht hd, opened => by
    rw [deepest_flat (.inl ht)]
    exact hd.deepest_bounds opened
  | _, _, _, .plain hd, opened => hd.deepest_bounds opened
  | _, _, _, .chain hd hc, opened => by
    obtain ⟨hlow, hhigh⟩ := hd.deepest_bounds opened
    have hmore := hc.deepest_le opened
    rw [hd.enclosed.toBalanced.deepest_append]
    omega
  | _, _, _, .group ho hd hc, opened => by
    have hinner := hd.deepest_bounds (opened + 1)
    rw [deepest_bracketed ho hc]
    omega
  | _, _, _, .emptyCall hf ho hc, opened => by
    have hbracketed : deepest opened [_, _] = 0 := @deepest_bracketed _ _ [] ho hc opened
    rw [deepest_operand (by simp [Token.isOperand, hf]), hbracketed]
    omega
  | _, _, _, .call hf ho hsep hc, opened => by
    have hinner := hsep.deepest_le (opened + 1)
    rw [deepest_operand (by simp [Token.isOperand, hf]), deepest_bracketed ho hc]
    omega
  | _, _, _, .reference ht, opened => by
    rw [deepest_operand (by simp [Token.isOperand, ht]), deepest]
    omega
  | _, _, _, .number ht, opened => by
    rw [deepest_operand (by simp [Token.isOperand, ht]), deepest]
    omega

theorem Continues.deepest_le {n : Nat} : ∀ {layer : Layer} {ts : List Token}
    {more : List (Operator × Expr)}, Continues n layer ts more →
    ∀ opened : Nat, deepest opened ts ≤ opened + n
  | _, _, _, .done, opened => Nat.zero_le _
  | _, _, _, .more ht hd hc, opened => by
    have hoperand := (hd.deepest_bounds opened).2
    have hmore := hc.deepest_le opened
    rw [deepest_operator ht, hd.enclosed.toBalanced.deepest_append]
    omega

theorem Separated.deepest_le {n : Nat} : ∀ {ts : List Token} {es : List Expr}, Separated n ts es →
    ∀ opened : Nat, deepest opened ts ≤ opened + n
  | _, _, .one hd, opened => (hd.deepest_bounds opened).2
  | _, _, .more hd hcomma hsep, opened => by
    have hfirst := (hd.deepest_bounds opened).2
    have hmore := hsep.deepest_le opened
    rw [hd.enclosed.toBalanced.deepest_append, deepest_flat (.inr hcomma)]
    omega

end

theorem Separated.le_deepest {n : Nat} {ts : List Token} {es : List Expr} (h : Separated n ts es)
    (opened : Nat) : opened ≤ deepest opened ts := by
  rcases h with hd | ⟨hd, -, -⟩
  · exact (hd.deepest_bounds opened).1
  · rw [hd.enclosed.toBalanced.deepest_append]
    exact Nat.le_trans (hd.deepest_bounds opened).1 (Nat.le_max_left _ _)

mutual

/-- Where no name or numeral is deeper, the phrase is not nested deeper. -/
theorem Derives.of_deepest_le {n m : Nat} : ∀ {p : Phrase} {ts : List Token} {e : Expr},
    Derives n p ts e → ∀ opened : Nat, deepest opened ts ≤ opened + m → Derives m p ts e
  | _, _, _, .negation ht hd, opened, h => by
    rw [deepest_flat (.inl ht)] at h
    exact .negation ht (hd.of_deepest_le opened h)
  | _, _, _, .plain hd, opened, h => .plain (hd.of_deepest_le opened h)
  | _, _, _, .chain hd hc, opened, h => by
    rw [hd.enclosed.toBalanced.deepest_append] at h
    exact .chain (hd.of_deepest_le opened (by omega)) (hc.of_deepest_le opened (by omega))
  | _, _, _, .group ho hd hc, opened, h => by
    have hinner := (hd.deepest_bounds (opened + 1)).1
    rw [deepest_bracketed ho hc] at h
    -- what is in the parentheses has a name or a numeral, so there is a level for it
    obtain ⟨m, rfl⟩ : ∃ m', m = m' + 1 := Nat.exists_eq_succ_of_ne_zero (by omega)
    exact .group ho (hd.of_deepest_le (opened + 1) (by omega)) hc
  | _, _, _, .emptyCall hf ho hc, _, _ => .emptyCall hf ho hc
  | _, _, _, .call hf ho hsep hc, opened, h => by
    have hinner := hsep.le_deepest (opened + 1)
    rw [deepest_operand (by simp [Token.isOperand, hf]), deepest_bracketed ho hc] at h
    obtain ⟨m, rfl⟩ : ∃ m', m = m' + 1 := Nat.exists_eq_succ_of_ne_zero (by omega)
    exact .call hf ho (hsep.of_deepest_le (opened + 1) (by omega)) hc
  | _, _, _, .reference ht, _, _ => .reference ht
  | _, _, _, .number ht, _, _ => .number ht

theorem Continues.of_deepest_le {n m : Nat} : ∀ {layer : Layer} {ts : List Token}
    {more : List (Operator × Expr)}, Continues n layer ts more →
    ∀ opened : Nat, deepest opened ts ≤ opened + m → Continues m layer ts more
  | _, _, _, .done, _, _ => .done
  | _, _, _, .more ht hd hc, opened, h => by
    rw [deepest_operator ht, hd.enclosed.toBalanced.deepest_append] at h
    exact .more ht (hd.of_deepest_le opened (by omega)) (hc.of_deepest_le opened (by omega))

theorem Separated.of_deepest_le {n m : Nat} : ∀ {ts : List Token} {es : List Expr},
    Separated n ts es → ∀ opened : Nat, deepest opened ts ≤ opened + m → Separated m ts es
  | _, _, .one hd, opened, h => .one (hd.of_deepest_le opened h)
  | _, _, .more hd hcomma hsep, opened, h => by
    rw [hd.enclosed.toBalanced.deepest_append, deepest_flat (.inr hcomma)] at h
    exact .more (hd.of_deepest_le opened (by omega)) hcomma (hsep.of_deepest_le opened (by omega))

end

/-- The number of grouping parentheses and argument lists around the part of a phrase that is nested
most deeply. -/
def nestingDepth (ts : List Token) : Nat := deepest 0 ts

/-- How deeply a phrase is nested shows in its tokens. -/
theorem Derives.iff_nestingDepth_le {n m : Nat} {p : Phrase} {ts : List Token} {e : Expr}
    (h : Derives n p ts e) : Derives m p ts e ↔ nestingDepth ts ≤ m := by
  constructor
  · intro hm
    have hle := (hm.deepest_bounds 0).2
    rwa [Nat.zero_add] at hle
  · intro hm
    exact h.of_deepest_le 0 (by rwa [Nat.zero_add])

namespace Parser

/-- A result fails at most because something is too deep. -/
def RefusesDepth {α : Type} (r : Result α) : Prop :=
  ∀ error, r = .error error → error = .malformed .tooDeep

namespace RefusesDepth

variable {α β : Type}

theorem ok (a : α) : RefusesDepth (.ok a) := nofun

theorem bind {x : Result α} {f : α → Result β} (hx : RefusesDepth x)
    (hf : ∀ a, x = .ok a → RefusesDepth (f a)) : RefusesDepth (x >>= f) := by
  rcases x with e | a
  · rintro _ ⟨⟩
    exact hx e rfl
  · exact hf a rfl

theorem checked (node : Node) : RefusesDepth node.checked := by
  unfold Node.checked
  split_ifs
  · rintro _ ⟨⟩
    rfl
  · exact ok node

theorem call {function : String} {args : List Node}
    (h : Registry.Accepts (function, args.length)) : RefusesDepth (call function args) := by
  obtain ⟨entry, hentry, haccepts⟩ := h
  have hcheck : Registry.checkArity function entry args.length = .ok () :=
    Registry.checkArity_eq_ok.2 haccepts
  unfold Parser.call
  simp only [hentry, hcheck]
  exact checked _

end RefusesDepth

variable {names : Names}

mutual

/-- Where the names are defined and the calls accepted, only a height can be refused. -/
theorem refusesDepth_toNode : ∀ e : Expr, (∀ name ∈ e.occurrences, names.contains name = true) →
    (∀ call ∈ e.calls, Registry.Accepts call) → RefusesDepth (e.toNode names)
  | .number x, _, _ => .ok _
  | .reference name, hdef, _ => by
    have hname := hdef name (by simp [Expr.occurrences])
    rw [Expr.toNode, reference_eq_ok.2 ⟨rfl, hname⟩]
    exact .ok _
  | .binary op left right, hdef, hcall => by
    simp only [Expr.occurrences, Expr.calls, List.mem_append] at hdef hcall
    exact .bind (refusesDepth_toNode left (fun x h => hdef x (.inl h)) fun c h => hcall c (.inl h))
      fun _ _ => .bind
        (refusesDepth_toNode right (fun x h => hdef x (.inr h)) fun c h => hcall c (.inr h))
        fun _ _ => .checked _
  | .not operand, hdef, hcall =>
    .bind (refusesDepth_toNode operand hdef hcall) fun _ _ => .checked _
  | .call function args, hdef, hcall => by
    simp only [Expr.calls, List.mem_append, List.mem_singleton] at hcall
    refine .bind (refusesDepth_toNodes args hdef fun c h => hcall c (.inl h)) fun nodes hnodes => ?_
    obtain ⟨rfl, -⟩ := (Expr.toNodes_eq_ok args nodes).1 hnodes
    refine .call ?_
    rw [List.length_map]
    exact hcall _ (.inr rfl)

theorem refusesDepth_toNodes : ∀ es : List Expr,
    (∀ name ∈ Expr.occurrencesAll es, names.contains name = true) →
    (∀ call ∈ Expr.callsAll es, Registry.Accepts call) → RefusesDepth (Expr.toNodes names es)
  | [], _, _ => .ok _
  | e :: es, hdef, hcall => by
    simp only [Expr.occurrencesAll, Expr.callsAll, List.mem_append] at hdef hcall
    exact .bind (refusesDepth_toNode e (fun x h => hdef x (.inl h)) fun c h => hcall c (.inl h))
      fun _ _ => .bind
        (refusesDepth_toNodes es (fun x h => hdef x (.inr h)) fun c h => hcall c (.inr h))
        fun _ _ => .ok _

end

theorem eq_tooDeep_of_unplaced {error : FormulaError}
    (h : error.unplaced = .malformed .tooDeep) : error = .malformed .tooDeep := by
  unfold FormulaError.unplaced at h
  split at h
  · cases h
  · exact h

theorem RefusesDepth.of_follows {α : Type} {within : Prop} {x y : Result α}
    (h : Follows within x y) (hy : RefusesDepth y) : RefusesDepth x := by
  rintro error rfl
  rcases h with h | ⟨-, h⟩
  · -- then `y` has failed as well, and has no token to show
    rcases y with e | a
    · obtain rfl := hy e rfl
      exact eq_tooDeep_of_unplaced (Except.error.inj h)
    · exact absurd (outline_eq_ok.1 h) nofun
  · exact Except.error.inj h

section WellFormed

variable {n : Nat} {ts : List Token} {e : Expr}

/-- Reading all tokens of an expression comes to the checks on its tree, if the limit on nesting
does not stop it. -/
theorem follows_parseTokens (hd : Derives n .expression ts e) :
    Follows False (parseTokens names ts) (do
      let node ← e.toNode names
      .ok node.expr) := by
  have hread : Follows False _ _ := follows_readPhrase names hd 0 [] nofun .nil
  rw [List.append_nil] at hread
  rw [parseTokens_eq]
  exact .bind_rest hread fun _ => .of_eq rfl

theorem parseTokens_unique {e' : Expr} (hd : Derives n .expression ts e)
    (h : parseTokens names ts = .ok e') : e' = e := by
  have hfollows : Follows False (parseTokens names ts) _ := follows_parseTokens hd
  rcases hfollows with hread | ⟨-, hdeep⟩
  · rw [h] at hread
    obtain ⟨node, hnode, he⟩ := bind_eq_ok.1 (outline_eq_ok.1 hread.symm)
    obtain ⟨rfl, -⟩ := (e.toNode_eq_ok node).1 hnode
    exact (Except.ok.inj he).symm
  · rw [h] at hdeep
    cases hdeep

variable (hd : Derives n .expression ts e)
  (hdef : ∀ name ∈ e.occurrences, names.contains name = true)
  (hcall : ∀ call ∈ e.calls, Registry.Accepts call)

include hd hdef hcall

/-- Where the names are defined and the calls accepted, reading refuses nothing but size. -/
theorem refusesDepth_parseTokens : RefusesDepth (parseTokens names ts) :=
  .of_follows (follows_parseTokens hd) (.bind (refusesDepth_toNode e hdef hcall) fun _ _ => .ok _)

theorem parseTokens_eq_of_derives :
    parseTokens names ts = if e.height ≤ 256 ∧ nestingDepth ts ≤ 255 then .ok e
      else malformed .tooDeep := by
  split_ifs with h
  · exact parseTokens_complete (hd.iff_nestingDepth_le.2 h.2) ⟨hdef, hcall, h.1⟩
  · rcases hparse : parseTokens names ts with error | e'
    · rw [refusesDepth_parseTokens hd hdef hcall error hparse]
      rfl
    · obtain rfl := parseTokens_unique hd hparse
      obtain ⟨hlimit, hadmissible⟩ := parseTokens_sound hparse
      exact absurd ⟨hadmissible.height_le, hd.iff_nestingDepth_le.1 hlimit⟩ h

/-- A well-formed expression is read if its tree is at most 256 high and it is nested in at most 255
grouping parentheses and argument lists, and is refused as nested too deeply if not. These are the
limits of `maxDepth` except where exactly `maxDepth` of these enclose a part of it. -/
theorem parseTokens_limits :
    parseTokens names ts = (if e.height ≤ 256 ∧ nestingDepth ts ≤ 255 then .ok e
      else malformed .tooDeep) ∧
    Malformation.message .tooDeep = "Formula nested too deeply" ∧
    (parseTokens names ts = (if e.height ≤ maxDepth ∧ nestingDepth ts ≤ maxDepth then .ok e
      else malformed .tooDeep) ↔ ¬ (e.height ≤ maxDepth ∧ nestingDepth ts = maxDepth)) := by
  have hparse := parseTokens_eq_of_derives hd hdef hcall
  refine ⟨hparse, rfl, ?_⟩
  rw [hparse, maxDepth]
  by_cases hlimits : e.height ≤ 256 ∧ nestingDepth ts ≤ 255
  · rw [if_pos hlimits, if_pos ⟨hlimits.1, by omega⟩]
    simp only [true_iff]
    omega
  · rw [if_neg hlimits]
    split_ifs with hdocumented
    · -- within 256 and not within 255
      simp only [malformed, reduceCtorEq, false_iff, not_not]
      omega
    · simp only [true_iff]
      omega

end WellFormed

/-- The tokens within `n` pairs of parentheses. -/
def parenthesized (n : Nat) (ts : List Token) : List Token :=
  match n with
  | 0 => ts
  | n + 1 => ⟨"("⟩ :: (parenthesized n ts ++ [⟨")"⟩])

theorem derives_parenthesized {m : Nat} {ts : List Token} {e : Expr}
    (hd : Derives m .expression ts e) : ∀ n, Derives (m + n) .expression (parenthesized n ts) e
  | 0 => hd
  | n + 1 => .expression_of_factor (.group rfl (derives_parenthesized hd n) rfl)

theorem deepest_parenthesized (ts : List Token) : ∀ n opened : Nat,
    deepest opened (parenthesized n ts) = deepest (opened + n : Nat) ts
  | 0, _ => rfl
  | n + 1, opened => by
    rw [parenthesized, deepest_bracketed rfl rfl, deepest_parenthesized ts n, Nat.add_right_comm,
      Nat.add_assoc]

theorem nestingDepth_parenthesized {t : Token} (ht : t.isOperand = true) (n : Nat) :
    nestingDepth (parenthesized n [t]) = n := by
  have hdeepest := deepest_parenthesized [t] n 0
  rwa [deepest_operand ht, deepest, Nat.zero_add, Nat.max_zero] at hdeepest

theorem derives_one : Derives 0 .expression [⟨"1"⟩] (.number 1) :=
  .expression_of_factor (.number (t := ⟨"1"⟩) (by decide))

theorem parseTokens_limits_numeral :
    Derives 255 .expression (parenthesized 255 [⟨"1"⟩]) (.number 1) ∧
    parseTokens .empty (parenthesized 255 [⟨"1"⟩]) = .ok (.number 1) := by
  have hd := derives_parenthesized derives_one 255
  have hread : parseTokens .empty _ = _ := (parseTokens_limits hd nofun nofun).1
  rw [nestingDepth_parenthesized (by decide), if_pos (by decide)] at hread
  exact ⟨hd, hread⟩

/-- A numeral in 256 pairs of parentheses is refused, although it is nested no deeper than that. -/
theorem parseTokens_refuses_limit :
    Derives 256 .expression (parenthesized 256 [⟨"1"⟩]) (.number 1) ∧
    Expr.occurrences (.number 1) = [] ∧ Expr.calls (.number 1) = [] ∧
    Expr.height (.number 1) ≤ maxDepth ∧ nestingDepth (parenthesized 256 [⟨"1"⟩]) ≤ maxDepth ∧
    parseTokens .empty (parenthesized 256 [⟨"1"⟩]) = malformed .tooDeep := by
  have hd := derives_parenthesized derives_one 256
  have hdepth : nestingDepth (parenthesized 256 [⟨"1"⟩]) = 256 :=
    nestingDepth_parenthesized (by decide) 256
  refine ⟨hd, rfl, rfl, by decide, hdepth.le, ?_⟩
  rw [parseTokens_eq_of_derives hd nofun nofun, hdepth, if_neg (by decide)]

end Parser

end EstimateSheet
