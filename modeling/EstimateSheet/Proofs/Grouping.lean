import EstimateSheet.Proofs.Printing
import EstimateSheet.Proofs.ReadingComplete

/-!
# What the text of a formula keeps

A parenthesis right after a name opens the arguments of a call, and any other one opens a grouping.
Printing the tree of a formula leaves out the groupings and writes every numeral in its shortest
form. It keeps all other tokens, each at its place (`Derives.keeps`). A formula without groupings is
therefore read back from its text as the same tree (`Parser.repr_keeps_tokens`).
-/

namespace EstimateSheet

namespace Token

/-- The tokens of a formula without its groupings. The list tells of each parenthesis that is open,
the last one first, whether it is that of a call, and the flag whether a name stands right before.
-/
def ungroup : List Bool → Bool → List Token → List Token
  | _, _, [] => []
  | enclosing, afterName, t :: ts =>
    if t.text = "(" then
      let rest := ungroup (afterName :: enclosing) false ts
      if afterName then t :: rest else rest
    else if t.text = ")" then
      let rest := ungroup enclosing.tail false ts
      if enclosing.head?.getD true then t :: rest else rest
    else t :: ungroup enclosing t.isName ts

/-- The tokens of a formula without the parentheses that group its parts. -/
def ungrouped (ts : List Token) : List Token := ungroup [] false ts

/-- A numeral in its shortest form; other tokens stay. -/
def canonical (t : Token) : Token := if t.isNumber then ⟨t.value.toString⟩ else t

theorem canonical_eq_self {t : Token} (h : t.isNumber = false) : t.canonical = t := by
  simp [canonical, h]

theorem canonical_of_isName {t : Token} (h : t.isName = true) : t.canonical = t := by
  refine canonical_eq_self (Bool.eq_false_iff.2 fun hn => ?_)
  simp [isName_eq_false_of_isNumber hn] at h

/-- The value of a numeral has no sign and is a number. -/
theorem value_sign (t : Token) : t.value.negative = false ∧ t.value.isNaN = false := by
  refine ⟨rfl, ?_⟩
  have h : t.value.magnitude ≤ Number.infiniteMagnitude := Nat.min_le_left ..
  simp only [Number.isNaN, decide_eq_false_iff_not]
  omega

section Ungroup

variable {t : Token} {ts us ts' us' : List Token}

/-- Whatever encloses the tokens and follows them, `us` is what is left of them. -/
def Leaves (ts us : List Token) : Prop :=
  ∃ afterName, ∀ enclosing rest,
    ungroup enclosing false (ts ++ rest) = us ++ ungroup enclosing afterName rest

theorem Leaves.ungrouped_eq (h : Leaves ts us) : ungrouped ts = us := by
  obtain ⟨afterName, h⟩ := h
  have hs := h [] []
  rwa [List.append_nil, ungroup, List.append_nil] at hs

/-- A token that is no parenthesis and no name. -/
def Separates (t : Token) : Prop := t.text ≠ "(" ∧ t.text ≠ ")" ∧ t.isName = false

theorem Separates.ungroup_cons (ht : t.Separates) (enclosing : List Bool) (afterName : Bool) :
    ungroup enclosing afterName (t :: ts) = t :: ungroup enclosing false ts := by
  rw [ungroup, if_neg ht.1, if_neg ht.2.1, ht.2.2]

theorem Leaves.nil : Leaves [] [] := ⟨false, fun _ _ => rfl⟩

theorem Leaves.single (h : t.text ≠ "(" ∧ t.text ≠ ")") : Leaves [t] [t] :=
  ⟨t.isName, fun enclosing rest => by simp [ungroup, h.1, h.2]⟩

theorem Leaves.cons (ht : t.Separates) (h : Leaves ts us) : Leaves (t :: ts) (t :: us) := by
  obtain ⟨afterName, h⟩ := h
  refine ⟨afterName, fun enclosing rest => ?_⟩
  rw [List.cons_append, ht.ungroup_cons, h, List.cons_append]

theorem Leaves.append_cons (h : Leaves ts us) (ht : t.Separates) (h' : Leaves ts' us') :
    Leaves (ts ++ t :: ts') (us ++ t :: us') := by
  obtain ⟨afterName, h⟩ := h
  obtain ⟨afterName', h'⟩ := h'
  refine ⟨afterName', fun enclosing rest => ?_⟩
  rw [List.append_assoc, h, List.cons_append, ht.ungroup_cons, h', List.append_assoc,
    List.cons_append]

theorem Leaves.group (h : Leaves ts us) : Leaves (⟨"("⟩ :: (ts ++ [⟨")"⟩])) us := by
  obtain ⟨afterName, h⟩ := h
  exact ⟨false, fun enclosing rest => by simp [ungroup, h]⟩

theorem Leaves.call (ht : t.isName = true) (h : Leaves ts us) :
    Leaves (t :: ⟨"("⟩ :: (ts ++ [⟨")"⟩])) (t :: ⟨"("⟩ :: (us ++ [⟨")"⟩])) := by
  obtain ⟨afterName, h⟩ := h
  have hopening := text_ne_of_isName ht
  have hclosing : t.text ≠ ")" := (BeginsOperand.text_ne (.inr (.inl ht))).2
  exact ⟨false, fun enclosing rest => by simp [ungroup, ht, hopening, hclosing, h]⟩

end Ungroup

theorem separates_of_operator {op : Operator} : Separates ⟨op.sign⟩ := by
  unfold Separates
  rcases op with op | op | op
  · cases op <;> decide
  · cases op <;> decide
  · cases op <;> decide

theorem canonical_operator {op : Operator} : canonical ⟨op.sign⟩ = ⟨op.sign⟩ := by
  refine canonical_eq_self ?_
  rcases op with op | op | op
  · cases op <;> decide
  · cases op <;> decide
  · cases op <;> decide

end Token

open Token

theorem Separated.ne_nil {n : Nat} {ts : List Token} {es : List Expr} (h : Separated n ts es) :
    es ≠ [] := by
  cases h <;> nofun

theorem Expr.tokensAll_cons {e : Expr} {es : List Expr} (h : es ≠ []) :
    tokensAll (e :: es) = e.tokens ++ ⟨","⟩ :: tokensAll es := by
  rw [tokensAll]
  exact h

/-- Without the groupings, the tokens are those that the tree is printed with, but for the form of
their numerals. -/
def Keeps (ts : List Token) (printed : List Token) : Prop :=
  ∃ us, Leaves ts us ∧ us.map canonical = printed

namespace Keeps

variable {ts ts' : List Token} {printed printed' : List Token} {t : Token}

theorem cons (ht : t.Separates) (hc : t.canonical = t) (h : Keeps ts printed) :
    Keeps (t :: ts) (t :: printed) := by
  obtain ⟨us, h, rfl⟩ := h
  exact ⟨_, h.cons ht, by rw [List.map_cons, hc]⟩

theorem append_cons (h : Keeps ts printed) (ht : t.Separates) (hc : t.canonical = t)
    (h' : Keeps ts' printed') : Keeps (ts ++ t :: ts') (printed ++ t :: printed') := by
  obtain ⟨us, h, rfl⟩ := h
  obtain ⟨us', h', rfl⟩ := h'
  exact ⟨_, h.append_cons ht h', by rw [List.map_append, List.map_cons, hc]⟩

theorem call (ht : t.isName = true) (h : Keeps ts printed) :
    Keeps (t :: ⟨"("⟩ :: (ts ++ [⟨")"⟩])) (t :: ⟨"("⟩ :: (printed ++ [⟨")"⟩])) := by
  obtain ⟨us, h, rfl⟩ := h
  refine ⟨_, h.call ht, ?_⟩
  simp [canonical_of_isName ht, show canonical ⟨"("⟩ = ⟨"("⟩ from canonical_eq_self (by decide),
    show canonical ⟨")"⟩ = ⟨")"⟩ from canonical_eq_self (by decide)]

end Keeps

mutual

/-- Every phrase of the grammar is printed with its own tokens, without its groupings. -/
theorem Derives.keeps {n : Nat} : ∀ {p : Phrase} {ts : List Token} {e : Expr}, Derives n p ts e →
    Keeps ts e.tokens
  | _, _, _, .negation ht hd => by
    rw [eq_of_text_eq ht, Expr.tokens]
    exact hd.keeps.cons ⟨by decide, by decide, by decide⟩ (canonical_eq_self (by decide))
  | _, _, _, .plain hd => hd.keeps
  | _, _, _, .chain hd hc => hc.keeps hd.keeps
  | _, _, _, .group ho hd hc => by
    rw [eq_of_text_eq ho, eq_of_text_eq hc]
    obtain ⟨us, hus, hprinted⟩ := hd.keeps
    exact ⟨us, hus.group, hprinted⟩
  | _, _, _, .emptyCall hf ho hc => by
    rw [eq_of_text_eq ho, eq_of_text_eq hc, Expr.tokens, Expr.tokensAll]
    exact .call hf ⟨[], .nil, rfl⟩
  | _, _, _, .call hf ho hsep hc => by
    rw [eq_of_text_eq ho, eq_of_text_eq hc, Expr.tokens]
    exact .call hf hsep.keeps
  | _, _, _, @Derives.reference _ t ht => by
    refine ⟨[t], .single ⟨text_ne_of_isName ht, (BeginsOperand.text_ne (.inr (.inl ht))).2⟩, ?_⟩
    rw [List.map_singleton, canonical_of_isName ht, Expr.tokens]
  | _, _, _, @Derives.number _ t ht => by
    have hclosing : t.text ≠ ")" := (BeginsOperand.text_ne (.inr (.inr ht))).2
    refine ⟨[t], .single ⟨text_ne_of_isNumber ht, hclosing⟩, ?_⟩
    rw [List.map_singleton, canonical, if_pos ht, Expr.tokens]

theorem Continues.keeps {n : Nat} {layer : Layer} : ∀ {ts : List Token}
    {more : List (Operator × Expr)}, Continues n layer ts more →
    ∀ {ts₀ : List Token} {first : Expr}, Keeps ts₀ first.tokens →
      Keeps (ts₀ ++ ts) (first.chained more).tokens
  | _, _, .done, ts₀, first, h => by
    rw [List.append_nil]
    exact h
  | _, _, @Continues.more _ _ t op ts ts' e more ht hd hc, ts₀, first, h => by
    have hsign := (Layer.mem_operators_iff.1 ht).1
    have hbinary : Keeps (ts₀ ++ t :: ts) (Expr.binary op first e).tokens := by
      rw [eq_of_text_eq hsign.symm, Expr.tokens]
      exact h.append_cons separates_of_operator canonical_operator hd.keeps
    have hmore := hc.keeps hbinary
    rwa [List.append_assoc, List.cons_append] at hmore

theorem Separated.keeps {n : Nat} : ∀ {ts : List Token} {es : List Expr}, Separated n ts es →
    Keeps ts (Expr.tokensAll es)
  | _, _, .one hd => hd.keeps
  | _, _, @Separated.more _ ts comma ts' e es hd hcomma hsep => by
    have hes := hsep.ne_nil
    rw [eq_of_text_eq hcomma, Expr.tokensAll_cons hes]
    exact hd.keeps.append_cons ⟨by decide, by decide, by decide⟩ (canonical_eq_self (by decide))
      hsep.keeps

end

mutual

theorem Derives.writable {n : Nat} : ∀ {p : Phrase} {ts : List Token} {e : Expr},
    Derives n p ts e → e.Writable
  | _, _, _, .negation _ hd => by
    rw [Expr.Writable]
    exact hd.writable
  | _, _, _, .plain hd => hd.writable
  | _, _, _, .chain hd hc => hc.writable hd.writable
  | _, _, _, .group _ hd _ => hd.writable
  | _, _, _, .emptyCall hf _ _ => by
    rw [Expr.Writable, Expr.WritableAll]
    exact ⟨hf, trivial⟩
  | _, _, _, .call hf _ hsep _ => by
    rw [Expr.Writable]
    exact ⟨hf, hsep.writable⟩
  | _, _, _, .reference ht => by
    rw [Expr.Writable]
    exact ht
  | _, _, _, .number _ => by
    rw [Expr.Writable]
    exact value_sign _

theorem Continues.writable {n : Nat} {layer : Layer} : ∀ {ts : List Token}
    {more : List (Operator × Expr)}, Continues n layer ts more →
    ∀ {first : Expr}, first.Writable → (first.chained more).Writable
  | _, _, .done, _, h => h
  | _, _, .more _ hd hc, _, h => by
    refine hc.writable ?_
    rw [Expr.Writable]
    exact ⟨h, hd.writable⟩

theorem Separated.writable {n : Nat} : ∀ {ts : List Token} {es : List Expr}, Separated n ts es →
    Expr.WritableAll es
  | _, _, .one hd => by
    rw [Expr.WritableAll, Expr.WritableAll]
    exact ⟨hd.writable, trivial⟩
  | _, _, .more hd _ hsep => by
    rw [Expr.WritableAll]
    exact ⟨hd.writable, hsep.writable⟩

end

namespace Token

/-- Its value is finite if it is a numeral. -/
def Bounded (t : Token) : Prop := t.isNumber = true → t.value.isFinite = true

theorem canonical_of_text {t : Token} {text : String} (h : t.text = text)
    (ht : isNumber ⟨text⟩ = false) : t.canonical = t := by
  rw [eq_of_text_eq h]
  exact canonical_eq_self ht

/-- The shortest form of a numeral is a numeral with the same value. -/
theorem canonical_numeral {t : Token} (h : t.isNumber = true) (hf : t.Bounded) :
    t.canonical.isNumber = true ∧ t.canonical.value = t.value := by
  rw [canonical, if_pos h]
  exact ⟨Number.isNumber_toString (hf h) (value_sign t).1,
    Number.value_toString (hf h) (value_sign t).1⟩

end Token

mutual

/-- Numerals can be replaced by their shortest forms. -/
theorem Derives.canonical {n : Nat} : ∀ {p : Phrase} {ts : List Token} {e : Expr},
    Derives n p ts e → (∀ t ∈ ts, t.Bounded) → Derives n p (ts.map Token.canonical) e
  | _, _, _, .negation ht hd, hf => by
    rw [List.map_cons, canonical_of_text ht (by decide)]
    exact .negation ht (hd.canonical fun t h => hf t (List.mem_cons_of_mem _ h))
  | _, _, _, .plain hd, hf => .plain (hd.canonical hf)
  | _, _, _, .chain hd hc, hf => by
    rw [List.map_append]
    exact .chain (hd.canonical fun t h => hf t (List.mem_append_left _ h))
      (hc.canonical fun t h => hf t (List.mem_append_right _ h))
  | _, _, _, .group ho hd hc, hf => by
    simp only [List.map_cons, List.map_append, List.map_nil, canonical_of_text ho (by decide),
      canonical_of_text hc (by decide)]
    exact .group ho (hd.canonical fun t h => hf t (by simp [h])) hc
  | _, _, _, .emptyCall hname ho hc, hf => by
    simp only [List.map_cons, List.map_nil, canonical_of_isName hname,
      canonical_of_text ho (by decide), canonical_of_text hc (by decide)]
    exact .emptyCall hname ho hc
  | _, _, _, .call hname ho hsep hc, hf => by
    simp only [List.map_cons, List.map_append, List.map_nil, canonical_of_isName hname,
      canonical_of_text ho (by decide), canonical_of_text hc (by decide)]
    exact .call hname ho (hsep.canonical fun t h => hf t (by simp [h])) hc
  | _, _, _, .reference ht, hf => by
    rw [List.map_singleton, canonical_of_isName ht]
    exact .reference ht
  | _, _, _, @Derives.number _ t ht, hf => by
    obtain ⟨hnumber, hvalue⟩ := canonical_numeral ht (hf t List.mem_cons_self)
    rw [List.map_singleton, ← hvalue]
    exact .number hnumber

theorem Continues.canonical {n : Nat} {layer : Layer} : ∀ {ts : List Token}
    {more : List (Operator × Expr)}, Continues n layer ts more → (∀ t ∈ ts, t.Bounded) →
    Continues n layer (ts.map Token.canonical) more
  | _, _, .done, _ => .done
  | _, _, @Continues.more _ _ t op ts ts' e more ht hd hc, hf => by
    have hsign : t.canonical = t := by
      rw [eq_of_text_eq (Layer.mem_operators_iff.1 ht).1.symm]
      exact canonical_operator
    rw [List.map_cons, List.map_append, hsign]
    exact .more ht (hd.canonical fun t h => hf t (by simp [h]))
      (hc.canonical fun t h => hf t (by simp [h]))

theorem Separated.canonical {n : Nat} : ∀ {ts : List Token} {es : List Expr}, Separated n ts es →
    (∀ t ∈ ts, t.Bounded) → Separated n (ts.map Token.canonical) es
  | _, _, .one hd, hf => .one (hd.canonical hf)
  | _, _, .more hd hcomma hsep, hf => by
    rw [List.map_append, List.map_cons, canonical_of_text hcomma (by decide)]
    exact .more (hd.canonical fun t h => hf t (by simp [h])) hcomma
      (hsep.canonical fun t h => hf t (by simp [h]))

end

namespace Parser

variable {names : Names}

/-- Printing the tree of a formula keeps all its tokens, but for the groupings and the form of its
numerals. Without groupings, the same tree is read from its text. -/
theorem repr_keeps_tokens {ts : List Token} {e : Expr} (h : parseTokens names ts = .ok e)
    (hf : ∀ t ∈ ts, t.isNumber = true → t.value.isFinite = true) :
    scan e.repr = .ok ((ungrouped ts).map Token.canonical) ∧
      (∀ t ∈ ts, t.isNumber = true → t.canonical.isNumber = true ∧ t.canonical.value = t.value) ∧
      (ungrouped ts = ts → parse names e.repr = .ok e) := by
  obtain ⟨hd, ha⟩ := parseTokens_sound h
  obtain ⟨us, hleaves, hprinted⟩ := hd.keeps
  have hscan : scan e.repr = .ok ((ungrouped ts).map Token.canonical) := by
    rw [Expr.scan_repr hd.writable, hleaves.ungrouped_eq, hprinted]
  refine ⟨hscan, fun t ht hn => canonical_numeral hn (hf t ht), fun hts => ?_⟩
  rw [hts] at hscan
  exact parse_of_derives hscan (hd.canonical hf) ha

theorem repr_keeps_tokens_uniform :
    let e : Expr := .call "uniform" [.number (value ⟨"0.50"⟩), .number (value ⟨"1.0"⟩)]
    let grouped : List Token := [⟨"uniform"⟩, ⟨"("⟩, ⟨"("⟩, ⟨"0.50"⟩, ⟨")"⟩, ⟨","⟩, ⟨"1.0"⟩, ⟨")"⟩]
    let bare : List Token := [⟨"uniform"⟩, ⟨"("⟩, ⟨"0.50"⟩, ⟨","⟩, ⟨"1.0"⟩, ⟨")"⟩]
    parseTokens .empty grouped = .ok e ∧ parseTokens .empty bare = .ok e ∧
      scan e.repr = .ok [⟨"uniform"⟩, ⟨"("⟩, ⟨"0.5"⟩, ⟨","⟩, ⟨"1"⟩, ⟨")"⟩] ∧
      parse .empty e.repr = .ok e := by
  intro e grouped bare
  have hfirst : Derives 253 .expression [⟨"0.50"⟩] (.number (value ⟨"0.50"⟩)) :=
    .expression_of_factor (.number (by decide))
  have hsecond : Separated 254 [⟨"1.0"⟩] [.number (value ⟨"1.0"⟩)] :=
    .one (.expression_of_factor (.number (by decide)))
  have hcall : Registry.Accepts ("uniform", 2) := ⟨_, rfl, rfl⟩
  have he : e.Admissible .empty := by
    refine ⟨?_, ?_, ?_⟩
    · simp [e, Expr.occurrences, Expr.occurrencesAll]
    · simpa [e, Expr.calls, Expr.callsAll] using hcall
    · simp [e, Expr.height, Expr.heights, maxDepth]
  have hgrouped : parseTokens .empty grouped = .ok e :=
    parseTokens_complete (.expression_of_factor (.call (by decide) rfl
      (.more (.expression_of_factor (.group rfl hfirst rfl)) rfl hsecond) rfl)) he
  have hbare : parseTokens .empty bare = .ok e :=
    parseTokens_complete (.expression_of_factor (.call (by decide) rfl
      (.more (.expression_of_factor (.number (by decide))) rfl hsecond) rfl)) he
  have hscan := (repr_keeps_tokens hgrouped (by decide +kernel)).1
  have hprinted : (ungrouped grouped).map Token.canonical =
      [⟨"uniform"⟩, ⟨"("⟩, ⟨"0.5"⟩, ⟨","⟩, ⟨"1"⟩, ⟨")"⟩] := by decide +kernel
  rw [hprinted] at hscan
  exact ⟨hgrouped, hbare, hscan, (repr_keeps_tokens hbare (by decide +kernel)).2.2 (by decide)⟩

end Parser

end EstimateSheet
