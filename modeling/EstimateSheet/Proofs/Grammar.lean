import EstimateSheet.Formula.Parser

/-!
# The grammar of formulas

`Derives n p ts e` says that the tokens `ts` as a whole form a phrase `p` whose tree is `e`. It
knows the shape of formulas only: which names are defined and which functions there are plays no
part.

Every phrase begins with an opening parenthesis, a name or a numeral, an expression perhaps with
`NOT` (`Derives.begins`). So the first token tells which kind of factor it is, whether an expression
is a negation and whether an argument list is empty.
-/

namespace EstimateSheet

/-- The layers of binary operators, from the loosest to the tightest. -/
inductive Layer where
  | disjunction
  | conjunction
  | comparison
  | sum
  | product
  | power

namespace Layer

/-- The operators of a layer by their signs. -/
def operators : Layer → List (String × Operator)
  | disjunction => [("OR", .connective .or)]
  | conjunction => [("AND", .connective .and)]
  | comparison =>
    [(">", .comparison .greater), ("<", .comparison .less), (">=", .comparison .greaterEqual),
      ("<=", .comparison .lessEqual), ("==", .comparison .equal), ("!=", .comparison .notEqual)]
  | sum => [("+", .arithmetic .add), ("-", .arithmetic .subtract)]
  | product =>
    [("*", .arithmetic .multiply), ("/", .arithmetic .divide), ("%", .arithmetic .remainder)]
  | power => [("^", .arithmetic .power)]

end Layer

/-- The phrases of the grammar: an expression, a chain of a layer's operators, a factor. -/
inductive Phrase where
  | expression
  | chain (layer : Layer)
  | factor

namespace Layer

/-- The operands of a layer: chains of the next tighter one, and factors for the tightest. -/
def operand : Layer → Phrase
  | disjunction => .chain .conjunction
  | conjunction => .chain .comparison
  | comparison => .chain .sum
  | sum => .chain .product
  | product => .chain .power
  | power => .factor

theorem operand_ne (layer : Layer) : layer.operand ≠ .expression := by
  cases layer <;> nofun

end Layer

namespace Expr

/-- An operand joined by the operators and operands that follow it, from left to right. -/
def chained (first : Expr) (more : List (Operator × Expr)) : Expr :=
  more.foldl (fun left (op, right) => .binary op left right) first

end Expr

mutual

/-- The tokens form the phrase, and the tree is its tree. No expression in it is enclosed by more
than `n` of the grouping parentheses and argument lists of the phrase. -/
inductive Derives : (n : Nat) → Phrase → List Token → Expr → Prop where
  | negation {n t ts e} : t.text = "NOT" → Derives n (.chain .disjunction) ts e →
      Derives n .expression (t :: ts) (.not e)
  | plain {n ts e} : Derives n (.chain .disjunction) ts e → Derives n .expression ts e
  | chain {n layer ts ts' first more} : Derives n layer.operand ts first →
      Continues n layer ts' more → Derives n (.chain layer) (ts ++ ts') (first.chained more)
  | group {n opening ts closing e} : opening.text = "(" → Derives n .expression ts e →
      closing.text = ")" → Derives (n + 1) .factor (opening :: (ts ++ [closing])) e
  | emptyCall {n function opening closing} : function.isName → opening.text = "(" →
      closing.text = ")" → Derives n .factor [function, opening, closing] (.call function.text [])
  | call {n function opening ts closing args} : function.isName → opening.text = "(" →
      Separated n ts args → closing.text = ")" →
      Derives (n + 1) .factor (function :: opening :: (ts ++ [closing])) (.call function.text args)
  | reference {n t} : t.isName → Derives n .factor [t] (.reference t.text)
  | number {n t} : t.isNumber → Derives n .factor [t] (.number t.value)

/-- The tokens are operators of the layer, each with an operand after it. -/
inductive Continues : (n : Nat) → Layer → List Token → List (Operator × Expr) → Prop where
  | done {n layer} : Continues n layer [] []
  | more {n layer t op ts ts' e more} : (t.text, op) ∈ layer.operators →
      Derives n layer.operand ts e → Continues n layer ts' more →
      Continues n layer (t :: (ts ++ ts')) ((op, e) :: more)

/-- The tokens are one expression or more, with commas between them. -/
inductive Separated : (n : Nat) → List Token → List Expr → Prop where
  | one {n ts e} : Derives n .expression ts e → Separated n ts [e]
  | more {n ts comma ts' e es} : Derives n .expression ts e → comma.text = "," →
      Separated n ts' es → Separated n (ts ++ comma :: ts') (e :: es)

end

/-- A factor is an expression without operators. -/
theorem Derives.expression_of_factor {n : Nat} {ts : List Token} {e : Expr}
    (h : Derives n .factor ts e) : Derives n .expression ts e := by
  have hchain : ∀ layer : Layer, Derives n layer.operand ts e → Derives n (.chain layer) ts e := by
    intro layer hl
    have hc := Derives.chain hl .done
    rwa [List.append_nil] at hc
  exact .plain (hchain .disjunction (hchain .conjunction (hchain .comparison (hchain .sum
    (hchain .product (hchain .power h))))))

namespace Token

theorem eq_of_text_eq {t : Token} {text : String} (h : t.text = text) : t = ⟨text⟩ := by
  rw [← h]

/-- A token that can begin an operand. -/
def BeginsOperand (t : Token) : Prop := t.text = "(" ∨ t.isName = true ∨ t.isNumber = true

theorem BeginsOperand.text_ne {t : Token} (h : t.BeginsOperand) :
    t.text ≠ "NOT" ∧ t.text ≠ ")" := by
  obtain ⟨text⟩ := t
  constructor
  · rintro rfl
    revert h
    unfold BeginsOperand
    decide
  · rintro rfl
    revert h
    unfold BeginsOperand
    decide

theorem text_ne_of_isName {t : Token} (h : t.isName = true) : t.text ≠ "(" := by
  obtain ⟨text⟩ := t
  rintro rfl
  revert h
  decide

theorem text_ne_of_isNumber {t : Token} (h : t.isNumber = true) : t.text ≠ "(" := by
  obtain ⟨text⟩ := t
  rintro rfl
  revert h
  decide

theorem isNameStart_eq_false_of_isDigit {c : Char} (h : c.isDigit = true) :
    isNameStart c = false := by
  have hu : c ≠ '_' := by
    rintro rfl
    revert h
    decide
  have hd : c.toNat ≤ 57 := (Char.isDigit_iff_toNat.1 h).2
  have hupper : c.isUpper = false := decide_eq_false fun hc => by
    have hle : 65 ≤ c.toNat := UInt32.le_iff_toNat_le.1 hc.1
    omega
  have hlower : c.isLower = false := by
    have hnot : ¬ c.val ≥ 'a'.val := fun hc => by
      have hle : 97 ≤ c.toNat := UInt32.le_iff_toNat_le.1 hc
      omega
    exact Bool.and_eq_false_iff.2 (.inl (decide_eq_false hnot))
  have halpha : c.isAlpha = (c.isUpper || c.isLower) := rfl
  rw [isNameStart, halpha, hupper, hlower, beq_eq_false_iff_ne.2 hu]
  rfl

/-- A numeral begins with a digit or a point, and so is no name. -/
theorem isName_eq_false_of_isNumber {t : Token} (h : t.isNumber = true) : t.isName = false := by
  unfold isNumber at h
  unfold isName isIdentifier
  generalize t.text.toList = cs at h
  rcases cs with _ | ⟨c, cs⟩
  · rfl
  · by_cases hd : c.isDigit = true
    · simp [isNameStart_eq_false_of_isDigit hd]
    · simp only [List.dropWhile_cons, hd, Bool.false_eq_true, if_false, Bool.and_eq_true,
        beq_iff_eq] at h
      obtain ⟨⟨rfl, -⟩, -⟩ := h
      rfl

end Token

/-- The first token of a phrase. -/
theorem Derives.begins {n : Nat} : ∀ {p ts e}, Derives n p ts e →
    ∃ t rest, ts = t :: rest ∧ (t.BeginsOperand ∨ p = .expression ∧ t.text = "NOT")
  | _, _, _, .negation h _ => ⟨_, _, rfl, .inr ⟨rfl, h⟩⟩
  | _, _, _, .plain h => by
    obtain ⟨t, rest, rfl, hb | ⟨hp, -⟩⟩ := h.begins
    · exact ⟨t, rest, rfl, .inl hb⟩
    · cases hp
  | _, _, _, .chain h _ => by
    obtain ⟨t, rest, rfl, hb | ⟨hp, -⟩⟩ := h.begins
    · exact ⟨t, _, rfl, .inl hb⟩
    · exact absurd hp (Layer.operand_ne _)
  | _, _, _, .group h _ _ => ⟨_, _, rfl, .inl (.inl h)⟩
  | _, _, _, .emptyCall h _ _ => ⟨_, _, rfl, .inl (.inr (.inl h))⟩
  | _, _, _, .call h _ _ _ => ⟨_, _, rfl, .inl (.inr (.inl h))⟩
  | _, _, _, .reference h => ⟨_, _, rfl, .inl (.inr (.inl h))⟩
  | _, _, _, .number h => ⟨_, _, rfl, .inl (.inr (.inr h))⟩

theorem Separated.begins {n : Nat} : ∀ {ts es}, Separated n ts es →
    ∃ t rest, ts = t :: rest ∧ t.text ≠ ")"
  | _, _, .one h => by
    obtain ⟨t, rest, rfl, hb | ⟨-, ht⟩⟩ := h.begins
    · exact ⟨t, rest, rfl, hb.text_ne.2⟩
    · exact ⟨t, rest, rfl, by rw [ht]; decide⟩
  | _, _, .more h _ _ => by
    obtain ⟨t, rest, rfl, hb | ⟨-, ht⟩⟩ := h.begins
    · exact ⟨t, _, rfl, hb.text_ne.2⟩
    · exact ⟨t, _, rfl, by rw [ht]; decide⟩

end EstimateSheet
