import EstimateSheet.Proofs.Reading
import Mathlib.Algebra.BigOperators.Group.List.Basic
import Mathlib.Algebra.Order.Ring.Int
import Mathlib.Data.List.Infix

/-!
# Parentheses in phrases

In every phrase of the grammar the parentheses are balanced, and each of its commas is inside some
of them (`Derives.enclosed`). So there is only one part in parentheses that ends at a given token
(`Bracketed.unique`), and the number of arguments in it is that of the commas outside further
parentheses, and one more (`Separated.length_eq`). Where a call begins and how many arguments it has
follow from the tokens up to its closing parenthesis (`Derives.call_unique`).
-/

namespace EstimateSheet

namespace Token

/-- By how much a token changes the number of open parentheses. -/
def weight (t : Token) : Int := if t.text = "(" then 1 else if t.text = ")" then -1 else 0

/-- Neither a parenthesis nor a comma. -/
def Flat (t : Token) : Prop := t.text ≠ "(" ∧ t.text ≠ ")" ∧ t.text ≠ ","

variable {t : Token}

theorem weight_opening (h : t.text = "(") : t.weight = 1 := by simp [weight, h]

theorem weight_closing (h : t.text = ")") : t.weight = -1 := by simp [weight, h]

theorem weight_comma (h : t.text = ",") : t.weight = 0 := by simp [weight, h]

theorem Flat.weight (h : t.Flat) : t.weight = 0 := by simp [Token.weight, h.1, h.2.1]

theorem flat_of_text {text : String} (h : t.text = text) (ht : Flat ⟨text⟩) : t.Flat := by
  rwa [eq_of_text_eq h]

theorem flat_of_operator {layer : Layer} {op : Operator} (h : (t.text, op) ∈ layer.operators) :
    t.Flat := by
  refine flat_of_text (Layer.mem_operators_iff.1 h).1.symm ?_
  unfold Flat
  rcases op with op | op | op <;> cases op <;> decide

theorem flat_of_begins (h : t.isName = true ∨ t.isNumber = true) : t.Flat := by
  refine ⟨?_, ?_, ?_⟩ <;>
    (obtain ⟨text⟩ := t; rintro rfl; revert h; decide)

end Token

/-- The number of parentheses that are open after the tokens. -/
def depth (ts : List Token) : Int := (ts.map Token.weight).sum

@[simp] theorem depth_nil : depth [] = 0 := rfl

@[simp] theorem depth_cons (t : Token) (ts : List Token) :
    depth (t :: ts) = t.weight + depth ts := by
  simp [depth]

@[simp] theorem depth_append (ts ts' : List Token) : depth (ts ++ ts') = depth ts + depth ts' := by
  simp [depth]

/-- The number of commas that are outside all parentheses, if `opened` of them are open before
the tokens. -/
def commas (opened : Int) : List Token → Nat
  | [] => 0
  | t :: ts => (if t.text = "," ∧ opened = 0 then 1 else 0) + commas (opened + t.weight) ts

theorem commas_append (ts ts' : List Token) (opened : Int) :
    commas opened (ts ++ ts') = commas opened ts + commas (opened + depth ts) ts' := by
  induction ts generalizing opened with
  | nil => simp [commas]
  | cons t ts ih => rw [List.cons_append, commas, commas, ih, depth_cons, ← add_assoc, ← add_assoc]

/-- There are no such commas where some parenthesis stays open. -/
theorem commas_eq_zero {ts : List Token} {opened : Int}
    (h : ∀ us, us <+: ts → 0 < opened + depth us) : commas opened ts = 0 := by
  induction ts generalizing opened with
  | nil => rfl
  | cons t ts ih =>
    have hpos : 0 < opened := by simpa using h [] List.nil_prefix
    rw [commas, if_neg (by omega), zero_add]
    refine ih fun us hus => ?_
    have hcons := h (t :: us) ((List.prefix_cons_inj t).2 hus)
    rwa [depth_cons, ← add_assoc] at hcons

/-- Each parenthesis that is closed has been opened before, and all that are opened are closed. -/
structure Balanced (ts : List Token) : Prop where
  settled : depth ts = 0
  nonneg : ∀ us, us <+: ts → 0 ≤ depth us

/-- The parentheses are balanced, and there are no commas outside them. -/
structure Enclosed (ts : List Token) : Prop extends Balanced ts where
  commas_eq : commas 0 ts = 0

/-- The first token opens a parenthesis that is closed by the last one. -/
structure Bracketed (ts : List Token) : Prop where
  ne_nil : ts ≠ []
  settled : depth ts = 0
  pos : ∀ us us', ts = us ++ us' → us ≠ [] → us' ≠ [] → 0 < depth us

namespace Bracketed

/-- What ends in a closing parenthesis has only one part that this parenthesis closes. -/
theorem unique {before before' ts ts' : List Token} (h : Bracketed ts) (h' : Bracketed ts')
    (heq : before ++ ts = before' ++ ts') : before = before' ∧ ts = ts' := by
  -- if one part were longer, the parentheses opened in what it has more would not be closed in it
  have hlonger : ∀ {ts ts' more : List Token}, Bracketed ts → Bracketed ts' → ts = more ++ ts' →
      more = [] := by
    intro ts ts' more h h' heq
    by_contra hmore
    have hpos := h.pos more ts' heq hmore h'.ne_nil
    have hsum := h.settled
    rw [heq, depth_append, h'.settled] at hsum
    omega
  rcases List.append_eq_append_iff.1 heq with ⟨more, rfl, hts⟩ | ⟨more, rfl, hts⟩
  · obtain rfl := hlonger h h' hts
    exact ⟨(List.append_nil _).symm, hts⟩
  · obtain rfl := hlonger h' h hts
    exact ⟨List.append_nil _, hts.symm⟩

theorem balanced {ts : List Token} (h : Bracketed ts) : Balanced ts where
  settled := h.settled
  nonneg us := by
    rintro ⟨us', heq⟩
    rcases eq_or_ne us [] with rfl | hus
    · exact le_refl 0
    · rcases eq_or_ne us' [] with rfl | hus'
      · rw [List.append_nil] at heq
        rw [heq, h.settled]
      · exact (h.pos us us' heq.symm hus hus').le

end Bracketed

namespace Balanced

variable {t opening closing : Token} {ts ts' : List Token}

theorem nil : Balanced [] := ⟨rfl, fun us h => by simp [List.prefix_nil.1 h]⟩

theorem append (h : Balanced ts) (h' : Balanced ts') : Balanced (ts ++ ts') where
  settled := by rw [depth_append, h.settled, h'.settled, add_zero]
  nonneg us hus := by
    rcases List.prefix_or_prefix_of_prefix hus (List.prefix_append ts ts') with hp | ⟨more, rfl⟩
    · exact h.nonneg us hp
    · rw [depth_append, h.settled, zero_add]
      exact h'.nonneg more ((List.prefix_append_right_inj ts).1 hus)

theorem cons (ht : t.weight = 0) (h : Balanced ts) : Balanced (t :: ts) where
  settled := by rw [depth_cons, ht, h.settled, add_zero]
  nonneg us hus := by
    rcases List.prefix_cons_iff.1 hus with rfl | ⟨us, rfl, hus'⟩
    · exact le_refl 0
    · rw [depth_cons, ht, zero_add]
      exact h.nonneg us hus'

variable (h : Balanced ts) (ho : opening.text = "(") (hc : closing.text = ")")

include h ho hc

theorem bracketed : Bracketed (opening :: (ts ++ [closing])) where
  ne_nil := List.cons_ne_nil _ _
  settled := by
    simp only [depth_cons, depth_append, depth_nil, h.settled, Token.weight_opening ho,
      Token.weight_closing hc]
    omega
  pos us us' heq hus hus' := by
    rcases us with _ | ⟨t, us⟩
    · exact absurd rfl hus
    · rw [List.cons_append, List.cons.injEq] at heq
      obtain ⟨rfl, heq⟩ := heq
      have hbegins : us <+: ts := by
        rcases List.eq_nil_or_concat us' with rfl | ⟨us', last, rfl⟩
        · exact absurd rfl hus'
        · rw [List.concat_eq_append, ← List.append_assoc] at heq
          exact ⟨us', (List.append_inj_left' heq rfl).symm⟩
      have hnonneg := h.nonneg us hbegins
      rw [depth_cons, Token.weight_opening ho]
      omega

theorem enclosed : Enclosed (opening :: (ts ++ [closing])) where
  toBalanced := (h.bracketed ho hc).balanced
  commas_eq := by
    have hinner : commas 1 ts = 0 := commas_eq_zero fun us hus => by
      have := h.nonneg us hus
      omega
    simp [commas, commas_append, ho, hc, hinner, Token.weight_opening ho]

end Balanced

namespace Enclosed

variable {t : Token} {ts ts' : List Token}

theorem nil : Enclosed [] := ⟨.nil, rfl⟩

theorem append (h : Enclosed ts) (h' : Enclosed ts') : Enclosed (ts ++ ts') where
  toBalanced := h.toBalanced.append h'.toBalanced
  commas_eq := by rw [commas_append, h.commas_eq, h.settled, zero_add, zero_add, h'.commas_eq]

theorem cons (ht : t.Flat) (h : Enclosed ts) : Enclosed (t :: ts) where
  toBalanced := h.toBalanced.cons ht.weight
  commas_eq := by simp [commas, ht.2.2, ht.weight, h.commas_eq]

theorem single (ht : t.Flat) : Enclosed [t] := .cons ht .nil

end Enclosed

mutual

/-- The parentheses of a phrase are balanced, and its commas are inside them. -/
theorem Derives.enclosed {n : Nat} : ∀ {p : Phrase} {ts : List Token} {e : Expr},
    Derives n p ts e → Enclosed ts
  | _, _, _, .negation ht hd =>
    .cons (Token.flat_of_text ht (by unfold Token.Flat; decide)) hd.enclosed
  | _, _, _, .plain hd => hd.enclosed
  | _, _, _, .chain hd hc => hd.enclosed.append hc.enclosed
  | _, _, _, .group ho hd hc => hd.enclosed.toBalanced.enclosed ho hc
  | _, _, _, .emptyCall hf ho hc =>
    .cons (Token.flat_of_begins (.inl hf)) (Balanced.nil.enclosed ho hc)
  | _, _, _, .call hf ho hsep hc =>
    .cons (Token.flat_of_begins (.inl hf)) (hsep.balanced.enclosed ho hc)
  | _, _, _, .reference ht => .single (Token.flat_of_begins (.inl ht))
  | _, _, _, .number ht => .single (Token.flat_of_begins (.inr ht))

theorem Continues.enclosed {n : Nat} : ∀ {layer : Layer} {ts : List Token}
    {more : List (Operator × Expr)}, Continues n layer ts more → Enclosed ts
  | _, _, _, .done => .nil
  | _, _, _, .more ht hd hc => .cons (Token.flat_of_operator ht) (hd.enclosed.append hc.enclosed)

theorem Separated.balanced {n : Nat} : ∀ {ts : List Token} {es : List Expr}, Separated n ts es →
    Balanced ts
  | _, _, .one hd => hd.enclosed.toBalanced
  | _, _, .more hd hcomma hsep =>
    hd.enclosed.toBalanced.append (.cons (Token.weight_comma hcomma) hsep.balanced)

end

theorem Separated.length_eq {n : Nat} : ∀ {ts : List Token} {es : List Expr}, Separated n ts es →
    es.length = commas 0 ts + 1
  | _, _, .one hd => by rw [hd.enclosed.commas_eq, List.length_singleton]
  | _, _, .more hd hcomma hsep => by
    rw [commas_append, hd.enclosed.commas_eq, hd.enclosed.settled, commas, List.length_cons,
      hsep.length_eq]
    simp only [hcomma, Token.weight_comma hcomma, add_zero, and_self, if_true]
    omega

/-- The number of arguments that the tokens between the parentheses of a call are. -/
def argumentCount (ts : List Token) : Nat := if ts = [] then 0 else commas 0 ts + 1

/-- A call is a name and a part in parentheses, in which the arguments can be counted. -/
theorem Derives.call_inv {n : Nat} {t : Token} {call : List Token} {args : List Expr}
    (h : Derives n .factor (t :: call) (.call t.text args)) (ht : t.isName = true) :
    ∃ opening ts closing, call = opening :: (ts ++ [closing]) ∧ opening.text = "(" ∧
      closing.text = ")" ∧ Balanced ts ∧ args.length = argumentCount ts := by
  generalize hp : Phrase.factor = p at h
  generalize hus : t :: call = us at h
  generalize he : Expr.call t.text args = e at h
  cases h with
  | negation => cases hp
  | plain => cases hp
  | chain => cases hp
  | group ho =>
    cases hus
    exact absurd ho (Token.text_ne_of_isName ht)
  | @emptyCall _ _ opening closing hf ho hc =>
    cases hus
    cases he
    exact ⟨opening, [], closing, rfl, ho, hc, .nil, rfl⟩
  | @call _ _ opening ts closing args hf ho hsep hc =>
    cases hus
    cases he
    obtain ⟨first, more, hne, -⟩ := hsep.begins
    refine ⟨opening, ts, closing, rfl, ho, hc, hsep.balanced, ?_⟩
    rw [hsep.length_eq, argumentCount, hne, if_neg (List.cons_ne_nil first more)]
  | reference => cases he
  | number => cases he

/-- Tokens end in one call at most, and it has one number of arguments. -/
theorem Derives.call_unique {n n' : Nat} {t t' : Token} {before before' call call' : List Token}
    {args args' : List Expr} (h : Derives n .factor (t :: call) (.call t.text args))
    (h' : Derives n' .factor (t' :: call') (.call t'.text args')) (ht : t.isName = true)
    (ht' : t'.isName = true) (heq : before ++ t :: call = before' ++ t' :: call') :
    t = t' ∧ args.length = args'.length := by
  obtain ⟨opening, ts, closing, rfl, ho, hc, hb, hl⟩ := h.call_inv ht
  obtain ⟨opening', ts', closing', rfl, ho', hc', hb', hl'⟩ := h'.call_inv ht'
  rw [List.append_cons before t, List.append_cons before' t'] at heq
  obtain ⟨hbefore, hcall⟩ := (hb.bracketed ho hc).unique (hb'.bracketed ho' hc') heq
  obtain ⟨-, hinner⟩ := List.cons.inj hcall
  rw [hl, hl', (List.append_inj' hinner rfl).1]
  exact ⟨List.singleton_inj.1 (List.append_inj' hbefore rfl).2, rfl⟩

end EstimateSheet
