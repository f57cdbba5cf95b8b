import EstimateSheet.Formula.Expr
import EstimateSheet.Formula.Lexeme
import EstimateSheet.Proofs.DecimalText
import EstimateSheet.Proofs.Grammar

/-!
# Scanning what is printed

The text of an expression is cut at the boundaries of the tokens it was made of: an operator sign
has blanks around it, and after a name or a numeral comes a blank, a parenthesis, a comma or nothing
(`scanChars_repr`). This needs names that are names and numbers without a sign; an infinite number
is written as a name.
-/

namespace EstimateSheet

namespace Token

/-- What can follow a name or a numeral without becoming a part of it. -/
def Ends (rest : List Char) : Prop :=
  ∀ c ∈ rest.head?, isNameChar c = false ∧ c.isDigit = false ∧ c ≠ '.'

theorem Ends.nil : Ends [] := nofun

theorem Ends.cons {c : Char} {rest : List Char}
    (h : isNameChar c = false ∧ c.isDigit = false ∧ c ≠ '.') : Ends (c :: rest) := by
  rintro _ ⟨⟩
  exact h

theorem takeWhile_append {p : Char → Bool} {cs rest : List Char} (hcs : ∀ c ∈ cs, p c = true)
    (hrest : ∀ c ∈ rest.head?, p c = false) : (cs ++ rest).takeWhile p = cs := by
  rw [List.takeWhile_append_of_pos hcs]
  rcases rest with _ | ⟨c, rest⟩
  · simp
  · simp [hrest c rfl]

theorem dropWhile_append {p : Char → Bool} {cs rest : List Char} (hcs : ∀ c ∈ cs, p c = true)
    (hrest : ∀ c ∈ rest.head?, p c = false) : (cs ++ rest).dropWhile p = rest := by
  rw [List.dropWhile_append_of_pos hcs]
  rcases rest with _ | ⟨c, rest⟩
  · simp
  · simp [hrest c rfl]

/-- Blanks are no visible characters of ASCII. -/
theorem isBlank_eq_false {c : Char} (hlow : 0x20 < c.toNat) (hhigh : c.toNat < 0x80) :
    Text.isBlank c = false := by
  simp [Text.isBlank]
  omega

theorem isBlank_eq_false_of_isDigit {c : Char} (h : c.isDigit = true) : Text.isBlank c = false := by
  obtain ⟨hlow, hhigh⟩ := Char.isDigit_iff_toNat.1 h
  exact isBlank_eq_false (Nat.lt_of_lt_of_le (by decide) hlow)
    (Nat.lt_of_le_of_lt hhigh (by decide))

theorem isBlank_eq_false_of_isNameStart {c : Char} (h : isNameStart c = true) :
    Text.isBlank c = false := by
  have hupper : c.isUpper = true → 0x20 < c.toNat ∧ c.toNat < 0x80 := fun hc => by
    obtain ⟨hlow, hhigh⟩ : c.val ≥ 'A'.val ∧ c.val ≤ 'Z'.val := of_decide_eq_true hc
    exact ⟨Nat.lt_of_lt_of_le (by decide) (UInt32.le_iff_toNat_le.1 hlow),
      Nat.lt_of_le_of_lt (UInt32.le_iff_toNat_le.1 hhigh) (by decide)⟩
  have hlower : c.isLower = true → 0x20 < c.toNat ∧ c.toNat < 0x80 := fun hc => by
    obtain ⟨hlow, hhigh⟩ := Bool.and_eq_true_iff.1 hc
    exact ⟨Nat.lt_of_lt_of_le (by decide) (UInt32.le_iff_toNat_le.1 (of_decide_eq_true hlow)),
      Nat.lt_of_le_of_lt (UInt32.le_iff_toNat_le.1 (of_decide_eq_true hhigh)) (by decide)⟩
  have hrange : 0x20 < c.toNat ∧ c.toNat < 0x80 := by
    have halpha : c.isAlpha = (c.isUpper || c.isLower) := rfl
    rw [isNameStart, halpha, Bool.or_eq_true, Bool.or_eq_true, beq_iff_eq] at h
    rcases h with (h | h) | rfl
    · exact hupper h
    · exact hlower h
    · decide
  exact isBlank_eq_false hrange.1 hrange.2

/-- A token at the start of a text is scanned as itself if it is the lexeme there. -/
theorem scanChars_token {t : Token} {rest : List Char} {tokens : List Token} {c : Char}
    {cs : List Char} (ht : t.text.toList = c :: cs) (hc : Text.isBlank c = false)
    (hl : lexeme (c :: (cs ++ rest)) = c :: cs) (hs : scanChars rest = .ok tokens) :
    scanChars (t.text.toList ++ rest) = .ok (t :: tokens) := by
  have htext : String.ofList (c :: cs) = t.text := by rw [← ht, String.ofList_toList]
  rw [ht, List.cons_append, scanChars_of_lexeme c cs hl hs, hc, htext]
  rfl

theorem scanChars_name {t : Token} {rest : List Char} {tokens : List Token}
    (ht : t.isIdentifier = true) (hrest : Ends rest) (hs : scanChars rest = .ok tokens) :
    scanChars (t.text.toList ++ rest) = .ok (t :: tokens) := by
  unfold isIdentifier at ht
  rcases hcs : t.text.toList with _ | ⟨c, cs⟩
  · rw [hcs] at ht
    cases ht
  · rw [hcs] at ht
    obtain ⟨hc, hall⟩ := Bool.and_eq_true_iff.1 ht
    have hblank := isBlank_eq_false_of_isNameStart hc
    rw [← hcs]
    refine scanChars_token hcs hblank ?_ hs
    rw [lexeme, if_neg (by simp [hblank]), if_pos hc,
      takeWhile_append (List.all_eq_true.1 hall) fun c hc => (hrest c hc).1]

theorem numeral_append {text : String} {whole fraction rest : List Char}
    (h : Spells text whole fraction) (hrest : Ends rest) :
    numeral (text.toList ++ rest) = text.toList := by
  have hdigit : ∀ c ∈ rest.head?, c.isDigit = false := fun c hc => (hrest c hc).2.1
  rw [numeral, h.toList_eq, List.append_assoc, pointed]
  split_ifs with hnil
  · rw [List.nil_append, List.append_nil, takeWhile_append h.isDigit_whole hdigit,
      dropWhile_append h.isDigit_whole hdigit]
    split
    next => exact absurd rfl (hrest _ rfl).2.2
    next => rfl
  · have hpoint : ∀ c ∈ ('.' :: fraction ++ rest).head?, c.isDigit = false := by simp
    rw [takeWhile_append h.isDigit_whole hpoint, dropWhile_append h.isDigit_whole hpoint]
    simp only [List.cons_append, takeWhile_append h.isDigit_fraction hdigit, hnil, if_false,
      Bool.false_eq_true]

theorem scanChars_number {t : Token} {whole fraction rest : List Char} {tokens : List Token}
    (ht : Spells t.text whole fraction) (hrest : Ends rest) (hs : scanChars rest = .ok tokens) :
    scanChars (t.text.toList ++ rest) = .ok (t :: tokens) := by
  have hnumeral := numeral_append ht hrest
  obtain ⟨c, cs, rfl⟩ := List.exists_cons_of_ne_nil ht.whole_ne_nil
  have hc : c.isDigit = true := ht.isDigit_whole c List.mem_cons_self
  have htext : t.text.toList = c :: (cs ++ pointed fraction) := ht.toList_eq
  have hblank := isBlank_eq_false_of_isDigit hc
  refine scanChars_token htext hblank ?_ hs
  rw [htext] at hnumeral
  rw [lexeme, if_neg (by simp [hblank]), if_neg (by simp [isNameStart_eq_false_of_isDigit hc]),
    if_pos (by simp [hc])]
  exact hnumeral

/-- A run of blanks makes no token. -/
theorem scanChars_dropWhile (cs : List Char) :
    scanChars (cs.dropWhile Text.isBlank) = scanChars cs := by
  rcases cs with _ | ⟨c, cs⟩
  · rfl
  · rcases hc : Text.isBlank c
    · rw [List.dropWhile_cons_of_neg (by simp [hc])]
    · have hdrop : cs.drop (cs.takeWhile Text.isBlank).length = cs.dropWhile Text.isBlank := by
        have hsplit := List.takeWhile_append_dropWhile (p := Text.isBlank) (l := cs)
        generalize cs.takeWhile Text.isBlank = run at hsplit ⊢
        generalize cs.dropWhile Text.isBlank = after at hsplit ⊢
        rw [← hsplit, List.drop_left]
      rw [List.dropWhile_cons_of_pos hc, scanChars.eq_def (c :: cs)]
      simp only [lexeme, hc, if_true, hdrop]
      rcases scanChars (cs.dropWhile Text.isBlank) with e | tokens <;> rfl

theorem scanChars_blank {c : Char} (hc : Text.isBlank c = true) (cs : List Char) :
    scanChars (c :: cs) = scanChars cs := by
  rw [← scanChars_dropWhile (c :: cs), List.dropWhile_cons_of_pos hc, scanChars_dropWhile]

theorem scanChars_sign {c : Char} (hc : c ∈ ['(', ')', ',']) {rest : List Char}
    {tokens : List Token} (hs : scanChars rest = .ok tokens) :
    scanChars (c :: rest) = .ok (⟨String.ofList [c]⟩ :: tokens) := by
  have hl : lexeme (c :: ([] ++ rest)) = [c] := by
    rcases hc with _ | ⟨_, _ | ⟨_, _ | ⟨_, ⟨⟩⟩⟩⟩ <;> rfl
  have hblank : Text.isBlank c = false := by
    rcases hc with _ | ⟨_, _ | ⟨_, _ | ⟨_, ⟨⟩⟩⟩⟩ <;> decide
  have h := scanChars_of_lexeme c [] hl hs
  rw [hblank] at h
  exact h

/-- An operator with blanks around it. -/
theorem scanChars_operator (op : Operator) {rest : List Char} {tokens : List Token}
    (hs : scanChars rest = .ok tokens) :
    scanChars (' ' :: (op.sign.toList ++ ' ' :: rest)) = .ok (⟨op.sign⟩ :: tokens) := by
  rw [scanChars_blank (by decide)]
  rw [← scanChars_blank (c := ' ') (by decide)] at hs
  rcases op with op | op | op
  · cases op <;> exact scanChars_token rfl (by decide) rfl hs
  · cases op <;> exact scanChars_token rfl (by decide) rfl hs
  · cases op <;> exact scanChars_name (by decide) (.cons (by decide)) hs

end Token

namespace Expr

mutual

/-- The tokens that the text of an expression is made of. -/
def tokens : Expr → List Token
  | number x => [⟨x.toString⟩]
  | reference name => [⟨name⟩]
  | binary op left right => left.tokens ++ ⟨op.sign⟩ :: right.tokens
  | not operand => ⟨"NOT"⟩ :: operand.tokens
  | call function args => ⟨function⟩ :: ⟨"("⟩ :: (tokensAll args ++ [⟨")"⟩])

def tokensAll : List Expr → List Token
  | [] => []
  | [e] => e.tokens
  | e :: es => e.tokens ++ ⟨","⟩ :: tokensAll es

end

mutual

/-- Its names are shaped like names, and its numbers have no sign. -/
def Writable : Expr → Prop
  | number x => x.negative = false ∧ x.isNaN = false
  | reference name => (Token.mk name).isName = true
  | binary _ left right => left.Writable ∧ right.Writable
  | not operand => operand.Writable
  | call function args => (Token.mk function).isName = true ∧ WritableAll args

def WritableAll : List Expr → Prop
  | [] => True
  | e :: es => e.Writable ∧ WritableAll es

end

end Expr

open Token

namespace Number

theorem toString_infinite {x : Number} (hs : x.negative = false) (hx : x.isNaN = false)
    (hf : x.isFinite = false) : x.toString = "inf" := by
  have hinf : x.magnitude = infiniteMagnitude := by
    simp only [isFinite, isNaN, decide_eq_false_iff_not] at hf hx
    omega
  simp [Number.toString, hx, hs, isInfinite, hinf]

theorem scanChars_toString {x : Number} (hs : x.negative = false) (hx : x.isNaN = false)
    {rest : List Char} {tokens : List Token} (hrest : Ends rest)
    (h : scanChars rest = .ok tokens) :
    scanChars (x.toString.toList ++ rest) = .ok (⟨x.toString⟩ :: tokens) := by
  rcases hf : x.isFinite
  · rw [toString_infinite hs hx hf]
    exact @scanChars_name ⟨"inf"⟩ _ _ (by decide) hrest h
  · obtain ⟨whole, fraction, hspells, -⟩ := spells_toString hf hs
    exact @scanChars_number ⟨x.toString⟩ _ _ _ _ hspells hrest h

end Number

namespace Expr

mutual

/-- The text of an expression is scanned as the tokens it was made of. -/
theorem scanChars_repr : ∀ (e : Expr), e.Writable → ∀ {rest : List Char} {tokens : List Token},
    Ends rest → scanChars rest = .ok tokens →
    scanChars (e.repr.toList ++ rest) = .ok (e.tokens ++ tokens)
  | .number x, hw, rest, tokens, hrest, hs => by
    rw [Writable] at hw
    rw [repr, Expr.tokens]
    exact Number.scanChars_toString hw.1 hw.2 hrest hs
  | .reference name, hw, rest, tokens, hrest, hs => by
    rw [Writable] at hw
    rw [repr, Expr.tokens]
    exact @scanChars_name ⟨name⟩ _ _ (Bool.and_eq_true_iff.1 hw).1 hrest hs
  | .binary op left right, hw, rest, tokens, hrest, hs => by
    rw [Writable] at hw
    have hright := scanChars_operator op (scanChars_repr right hw.2 hrest hs)
    have hleft := scanChars_repr left hw.1 (.cons (by decide)) hright
    simpa [repr, Expr.tokens] using hleft
  | .not operand, hw, rest, tokens, hrest, hs => by
    rw [Writable] at hw
    have hoperand := scanChars_repr operand hw hrest hs
    rw [← scanChars_blank (c := ' ') (by decide)] at hoperand
    have hnot := @scanChars_name ⟨"NOT"⟩ _ _ (by decide) (.cons (by decide)) hoperand
    simpa [repr, Expr.tokens] using hnot
  | .call function args, hw, rest, tokens, hrest, hs => by
    rw [Writable] at hw
    have hclosing := scanChars_sign (c := ')') (by decide) hs
    have hargs := scanChars_reprs args hw.2 (.cons (by decide)) hclosing
    have hopening := scanChars_sign (c := '(') (by decide) hargs
    have hfunction := @scanChars_name ⟨function⟩ _ _ (Bool.and_eq_true_iff.1 hw.1).1
      (.cons (by decide)) hopening
    simpa [repr, Expr.tokens] using hfunction

theorem scanChars_reprs : ∀ (es : List Expr), WritableAll es → ∀ {rest : List Char}
    {tokens : List Token}, Ends rest → scanChars rest = .ok tokens →
    scanChars ((reprs es).toList ++ rest) = .ok (tokensAll es ++ tokens)
  | [], _, rest, tokens, _, hs => by simpa [reprs, tokensAll] using hs
  | [e], hw, rest, tokens, hrest, hs => by
    rw [WritableAll] at hw
    rw [reprs, tokensAll]
    exact scanChars_repr e hw.1 hrest hs
  | e :: e' :: es, hw, rest, tokens, hrest, hs => by
    rw [WritableAll] at hw
    have hes := scanChars_reprs (e' :: es) hw.2 hrest hs
    rw [← scanChars_blank (c := ' ') (by decide)] at hes
    have hcomma := scanChars_sign (c := ',') (by decide) hes
    have he := scanChars_repr e hw.1 (.cons (by decide)) hcomma
    simpa [reprs, tokensAll] using he

end

theorem scan_repr {e : Expr} (hw : e.Writable) : scan e.repr = .ok e.tokens := by
  have h := scanChars_repr e hw .nil scanChars_nil
  rwa [List.append_nil, List.append_nil] at h

end Expr

end EstimateSheet
