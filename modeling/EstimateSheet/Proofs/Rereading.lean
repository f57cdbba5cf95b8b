import EstimateSheet.Proofs.Regrouping

/-!
# When the text of a formula is read again

In a row of tokens that forms an expression, `NOT` comes first or after an opening parenthesis or a
comma (`Derives.negationsLead`). So the text of a tree is not read if it has a `NOT` elsewhere,
which happens when a negation was grouped. Otherwise it is read unless the flat tree is too high or
an infinite number is read as a name that is not defined (`Parser.parse_repr_eq_ok_iff`). What is
read has the same text (`Parser.repr_reparses`).
-/

namespace EstimateSheet

namespace Token

/-- `NOT` stands only where an expression can begin: at the start, if `first`, or after an opening
parenthesis or a comma. -/
def negationsLead : Bool → List Token → Bool
  | _, [] => true
  | first, t :: ts =>
    (t.text != "NOT" || first) && negationsLead (t.text == "(" || t.text == ",") ts

/-- A token that is no negation and after which no expression begins. -/
def Inner (t : Token) : Prop := t.text ≠ "NOT" ∧ t.text ≠ "(" ∧ t.text ≠ ","

theorem Inner.negationsLead_cons {t : Token} (ht : t.Inner) (first : Bool) (ts : List Token) :
    negationsLead first (t :: ts) = negationsLead false ts := by
  rw [negationsLead, bne_iff_ne.2 ht.1, beq_eq_false_iff_ne.2 ht.2.1,
    beq_eq_false_iff_ne.2 ht.2.2]
  rfl

theorem inner_of_text {t : Token} {text : String} (h : t.text = text) (ht : Inner ⟨text⟩) :
    t.Inner := by
  rwa [eq_of_text_eq h]

theorem inner_closing : Inner ⟨")"⟩ := by
  unfold Inner
  decide

theorem inner_of_operator (op : Operator) : Inner ⟨op.sign⟩ := by
  unfold Inner
  rcases op with op | op | op
  · cases op <;> decide
  · cases op <;> decide
  · cases op <;> decide

theorem text_ne_comma {t : Token} (h : t.isName = true ∨ t.isNumber = true) : t.text ≠ "," := by
  obtain ⟨text⟩ := t
  rintro rfl
  revert h
  decide

theorem inner_of_isName {t : Token} (h : t.isName = true) : t.Inner :=
  ⟨(BeginsOperand.text_ne (.inr (.inl h))).1, text_ne_of_isName h, text_ne_comma (.inl h)⟩

theorem inner_of_isNumber {t : Token} (h : t.isNumber = true) : t.Inner :=
  ⟨(BeginsOperand.text_ne (.inr (.inr h))).1, text_ne_of_isNumber h, text_ne_comma (.inr h)⟩

theorem inner_toString {x : Number} (hs : x.negative = false) (hx : x.isNaN = false) :
    Inner ⟨x.toString⟩ := by
  rcases hf : x.isFinite
  · rw [Number.toString_infinite hs hx hf]
    exact inner_of_isName (by decide)
  · exact inner_of_isNumber (Number.isNumber_toString hf hs)

end Token

open Token EstimateSheet.Expr

mutual

/-- In a phrase of the grammar, `NOT` stands only where an expression can begin. -/
theorem Derives.negationsLead {n : Nat} : ∀ {p : Phrase} {ts : List Token} {e : Expr},
    Derives n p ts e → ∀ {first : Bool} {rest : List Token}, (p = .expression → first = true) →
      negationsLead false rest = true → negationsLead first (ts ++ rest) = true
  | _, _, _, @Derives.negation _ _ ts _ ht hd, first, rest, hfirst, hrest => by
    have hoperand : Token.negationsLead false (ts ++ rest) = true := hd.negationsLead nofun hrest
    simp [Token.negationsLead, ht, hfirst rfl, hoperand]
  | _, _, _, .plain hd, first, rest, _, hrest => hd.negationsLead nofun hrest
  | _, _, _, .chain hd hc, first, rest, _, hrest => by
    rw [List.append_assoc]
    exact hd.negationsLead (fun h => absurd h (Layer.operand_ne _)) (hc.negationsLead hrest)
  | _, _, _, @Derives.group _ _ ts closing _ ho hd hc, first, rest, _, hrest => by
    rw [← (inner_of_text hc inner_closing).negationsLead_cons false] at hrest
    have hgrouped : Token.negationsLead true (ts ++ closing :: rest) = true :=
      hd.negationsLead (fun _ => rfl) hrest
    simpa [Token.negationsLead, ho] using hgrouped
  | _, _, _, .emptyCall hf ho hc, first, rest, _, hrest => by
    rw [← (inner_of_text hc inner_closing).negationsLead_cons true] at hrest
    rw [List.cons_append, (inner_of_isName hf).negationsLead_cons]
    simpa [Token.negationsLead, ho] using hrest
  | _, _, _, .call hf ho hsep hc, first, rest, _, hrest => by
    rw [← (inner_of_text hc inner_closing).negationsLead_cons false] at hrest
    have hargs := hsep.negationsLead hrest
    rw [List.cons_append, (inner_of_isName hf).negationsLead_cons]
    simpa [Token.negationsLead, ho] using hargs
  | _, _, _, .reference ht, first, rest, _, hrest => by
    rwa [List.singleton_append, (inner_of_isName ht).negationsLead_cons]
  | _, _, _, .number ht, first, rest, _, hrest => by
    rwa [List.singleton_append, (inner_of_isNumber ht).negationsLead_cons]

theorem Continues.negationsLead {n : Nat} {layer : Layer} : ∀ {ts : List Token}
    {more : List (Operator × Expr)}, Continues n layer ts more → ∀ {rest : List Token},
      negationsLead false rest = true → negationsLead false (ts ++ rest) = true
  | _, _, .done, _, hrest => hrest
  | _, _, .more ht hd hc, rest, hrest => by
    have hinner := inner_of_text (Layer.mem_operators_iff.1 ht).1.symm (inner_of_operator _)
    rw [List.cons_append, hinner.negationsLead_cons, List.append_assoc]
    exact hd.negationsLead (fun h => absurd h (Layer.operand_ne _)) (hc.negationsLead hrest)

theorem Separated.negationsLead {n : Nat} : ∀ {ts : List Token} {es : List Expr},
    Separated n ts es → ∀ {rest : List Token}, negationsLead false rest = true →
      negationsLead true (ts ++ rest) = true
  | _, _, .one hd, rest, hrest => hd.negationsLead (fun _ => rfl) hrest
  | _, _, .more hd hcomma hsep, rest, hrest => by
    have hes := hsep.negationsLead hrest
    rw [List.append_assoc]
    refine hd.negationsLead (fun _ => rfl) ?_
    simpa [Token.negationsLead, hcomma] using hes

end

namespace Expr

mutual

/-- Where `NOT` stands in the tokens of a tree is where it stands in the tree. -/
theorem negationsLead_of_tokens : ∀ {e : Expr}, e.Writable → ∀ {first : Bool} {rest : List Token},
    Token.negationsLead first (e.tokens ++ rest) = true →
      e.negationsLead first = true ∧ Token.negationsLead false rest = true
  | .number x, hw, first, rest, h => by
    rw [Writable] at hw
    rw [tokens, List.singleton_append, (inner_toString hw.1 hw.2).negationsLead_cons] at h
    exact ⟨by rw [negationsLead], h⟩
  | .reference name, hw, first, rest, h => by
    rw [Writable] at hw
    rw [tokens, List.singleton_append, (inner_of_isName hw).negationsLead_cons] at h
    exact ⟨by rw [negationsLead], h⟩
  | .binary op left right, hw, first, rest, h => by
    rw [Writable] at hw
    rw [tokens, List.append_assoc, List.cons_append] at h
    obtain ⟨hleft, h⟩ := negationsLead_of_tokens hw.1 h
    rw [(inner_of_operator op).negationsLead_cons] at h
    obtain ⟨hright, h⟩ := negationsLead_of_tokens hw.2 h
    exact ⟨by rw [negationsLead, hleft, hright]; rfl, h⟩
  | .not operand, hw, first, rest, h => by
    rw [Writable] at hw
    have hsplit : first = true ∧ Token.negationsLead false (operand.tokens ++ rest) = true := by
      simpa [tokens, Token.negationsLead] using h
    obtain ⟨hoperand, h⟩ := negationsLead_of_tokens hw hsplit.2
    exact ⟨by rw [negationsLead, hsplit.1, hoperand]; rfl, h⟩
  | .call function args, hw, first, rest, h => by
    rw [Writable] at hw
    rw [tokens, List.cons_append, (inner_of_isName hw.1).negationsLead_cons] at h
    rw [negationsLead]
    exact allNegationsLead_of_tokens hw.2 (by simpa [Token.negationsLead] using h)

theorem allNegationsLead_of_tokens : ∀ {es : List Expr}, WritableAll es → ∀ {rest : List Token},
    Token.negationsLead true (tokensAll es ++ ⟨")"⟩ :: rest) = true →
      allNegationsLead es = true ∧ Token.negationsLead false rest = true
  | [], _, rest, h => by
    rw [tokensAll, List.nil_append, inner_closing.negationsLead_cons] at h
    exact ⟨by rw [allNegationsLead], h⟩
  | [e], hw, rest, h => by
    rw [WritableAll] at hw
    rw [tokensAll] at h
    obtain ⟨he, h⟩ := negationsLead_of_tokens hw.1 h
    rw [inner_closing.negationsLead_cons] at h
    exact ⟨by rw [allNegationsLead, he, allNegationsLead]; rfl, h⟩
  | e :: f :: es, hw, rest, h => by
    rw [WritableAll] at hw
    rw [tokensAll_cons (List.cons_ne_nil f es), List.append_assoc] at h
    obtain ⟨he, h⟩ := negationsLead_of_tokens hw.1 h
    obtain ⟨hes, h⟩ := allNegationsLead_of_tokens hw.2
      (show Token.negationsLead true (tokensAll (f :: es) ++ ⟨")"⟩ :: rest) = true from h)
    exact ⟨by rw [allNegationsLead, he, hes]; rfl, h⟩

end

/-- The name `a` and as many further ones added to it. -/
def sums : Nat → Expr
  | 0 => reference "a"
  | n + 1 => binary (.arithmetic .add) (sums n) (reference "a")

theorem writable_sums : ∀ n, (sums n).Writable
  | 0 => by
    rw [sums, Writable]
    decide
  | n + 1 => by
    rw [sums, Writable, Writable]
    exact ⟨writable_sums n, by decide⟩

theorem flat_sums : ∀ n, (sums n).Flat 3
  | 0 => by
    rw [sums, Flat]
    trivial
  | n + 1 => by
    rw [sums, Flat, Flat]
    exact ⟨Nat.le_refl _, flat_sums n, trivial⟩

theorem height_sums : ∀ n, (sums n).height = n + 1
  | 0 => by rw [sums, height]
  | n + 1 => by
    rw [sums, height, height_sums n, height]
    omega

theorem nesting_sums : ∀ n, (sums n).nesting = 0
  | 0 => by rw [sums, nesting]
  | n + 1 => by
    rw [sums, nesting, nesting_sums n, nesting]
    rfl

theorem attach_sums : ∀ n, attach (.arithmetic .add) (reference "a") (sums n) = sums (n + 1)
  | 0 => by
    rw [sums, attach, sums, sums]
    rintro _ _ _ ⟨⟩
  | n + 1 => by
    rw [sums, attach, if_neg (Nat.lt_irrefl _), sums, sums]

/-- Without groupings, a sum of sums is one longer sum. -/
theorem joined_sums (m : Nat) : ∀ n, joined (sums m) (.arithmetic .add) (sums n) = sums (m + n + 1)
  | 0 => by
    rw [sums, joined, attach_sums, Nat.add_zero]
    rintro _ _ _ ⟨⟩
  | n + 1 => by
    have hlast : joined (sums (m + n + 1)) (.arithmetic .add) (sums 0) = sums (m + n + 1 + 1) :=
      joined_sums (m + n + 1) 0
    rw [sums, joined, joined_sums m n]
    exact hlast

theorem followed_sums (m n : Nat) :
    followed (sums m) (.arithmetic .add) (sums n) = sums (m + n + 1) := by
  rw [← joined_sums m n]
  rcases m with _ | m <;> rfl

theorem reread_sums : ∀ n, (sums n).reread = sums n
  | 0 => by rw [sums, reread]
  | n + 1 => by
    rw [sums, reread, reread_sums n]
    exact followed_sums n 0

theorem admissible_sums {names : Names} (ha : names.contains "a" = true) :
    ∀ {n : Nat}, n < Parser.maxDepth → (sums n).Admissible names
  | 0, _ => by
    rw [sums]
    exact ⟨by simp [occurrences, ha], by simp [calls], by simp [height, Parser.maxDepth]⟩
  | n + 1, h => by
    have hheight := height_sums (n + 1)
    have ha' : (reference "a").Admissible names := admissible_sums ha (n := 0) (by decide)
    rw [sums] at hheight ⊢
    exact admissible_binary.2 ⟨admissible_sums ha (Nat.lt_of_succ_lt h), ha', by omega⟩

end Expr

namespace Parser

variable {names : Names}

/-- The sum of two grouped sums is read if neither is too high, although the sum without groupings
may be. -/
theorem parse_grouped_sums (ha : names.contains "a" = true) {n : Nat}
    (hn : n + 1 < maxDepth) :
    parse names ("(" ++ (sums n).repr ++ ")" ++ " + " ++ "(" ++ (sums n).repr ++ ")") =
      .ok (.binary (.arithmetic .add) (sums n) (sums n)) := by
  have hw := writable_sums n
  have hclosing : scanChars [')'] = .ok [⟨")"⟩] := scanChars_sign (by decide) scanChars_nil
  have hsecond := scanChars_sign (c := '(') (by decide)
    (scanChars_repr (sums n) hw (.cons (by decide)) hclosing)
  have hfirst := scanChars_sign (c := '(') (by decide)
    (scanChars_repr (sums n) hw (.cons (by decide)) (scanChars_sign (c := ')') (by decide)
      (scanChars_operator (.arithmetic .add) hsecond)))
  have hsums : Derives 254 .expression (sums n).tokens (sums n) :=
    (flat_sums n).derives hw (by rw [nesting_sums]; exact Nat.zero_le _) (by decide)
  have hd : Derives 255 (.chain .sum) _ (.binary (.arithmetic .add) (sums n) (sums n)) :=
    .binary (.arithmetic .add) rfl hsums.grouped hsums.grouped
  have hheight : (binary (.arithmetic .add) (sums n) (sums n)).height ≤ maxDepth := by
    rw [height, height_sums]
    omega
  have hsum := admissible_sums ha (Nat.lt_of_succ_lt hn)
  refine parse_of_derives ?_ (hd.loosen nofun (by decide))
    (admissible_binary.2 ⟨hsum, hsum, hheight⟩)
  rw [scan]
  convert hfirst using 2
  · simp [String.toList_append]
    rfl
  · simp

/-- A power of ten is read as its value, whatever its size. -/
theorem parse_powerOfTen (n : Nat) : parse names (String.ofList ('1' :: List.replicate n '0')) =
    .ok (.number (Number.ofDecimal (Number.powerOfTen n) 0)) := by
  have hdigits : ∀ c ∈ '1' :: List.replicate n '0', c.isDigit = true := by
    intro c hc
    rcases List.mem_cons.1 hc with rfl | hc
    · decide
    · rw [List.eq_of_mem_replicate hc]
      decide
  have hspells := Spells.ofDigits (List.cons_ne_nil '1' (List.replicate n '0')) hdigits
  have hscan := @scanChars_number ⟨String.ofList ('1' :: List.replicate n '0')⟩ _ _ _ _ hspells .nil
    scanChars_nil
  have hvalue : digitsValue ('1' :: List.replicate n '0') = Number.powerOfTen n :=
    (digitsValue_append_replicate ['1'] n).trans (Nat.one_mul _)
  rw [List.append_nil] at hscan
  rw [parse_number hscan hspells.isNumber, hspells.value, List.append_nil, hvalue, List.length_nil]

variable {formula : String} {e e' : Expr}

/-- The text of a formula's tree is read exactly if `NOT` stands in it only where an expression
begins, infinite numbers are read as a defined name, and the flat tree is not too high. -/
theorem parse_repr_eq_ok_iff (h : parse names formula = .ok e) :
    parse names e.repr = .ok e' ↔ e.negationsLead true = true ∧
      ((∀ x ∈ e.literals, x.isFinite = true) ∨ names.contains "inf" = true) ∧
      e.reread.height ≤ maxDepth ∧ e' = e.reread := by
  obtain ⟨ts, -, h⟩ := bind_eq_ok.1 h
  obtain ⟨hd, ha⟩ := parseTokens_sound h
  have hw := hd.writable
  have hn : e.nesting < maxDepth := (nesting_lt e).trans_le ha.height_le
  constructor
  · intro hreparsed
    have hnot : e.negationsLead true = true := by
      obtain ⟨us, hscan, hread⟩ := bind_eq_ok.1 hreparsed
      rw [scan_repr hw] at hscan
      obtain rfl := Except.ok.inj hscan
      have htokens : Token.negationsLead true (e.tokens ++ []) = true :=
        (parseTokens_sound hread).1.negationsLead (fun _ => rfl) rfl
      exact (negationsLead_of_tokens hw htokens).1
    obtain ⟨rfl, hdefined, -, hheight⟩ := (parse_repr_of_negationsLead hw hn hnot).1 hreparsed
    exact ⟨hnot, hdefined.2, hheight, rfl⟩
  · rintro ⟨hnot, hfinite, hheight, rfl⟩
    exact (parse_repr_of_negationsLead hw hn hnot).2
      ⟨rfl, ⟨ha.defined, hfinite⟩, ha.callable, hheight⟩

/-- If the text of a formula's tree is read, then as a tree with the same text. It is read if `NOT`
stands in it only where an expression begins, every number is finite or the name of infinite ones
defined, and the tree of the text is at most 256 high. -/
theorem repr_reparses (h : parse names formula = .ok e) :
    (∀ e', parse names e.repr = .ok e' → e'.repr = e.repr) ∧
      (e.negationsLead true = true →
        (∀ x ∈ e.literals, x.isFinite = true) ∨ names.contains "inf" = true →
        e.reread.height ≤ 256 → ∃ e', parse names e.repr = .ok e' ∧ e'.repr = e.repr) := by
  obtain ⟨ts, -, hread⟩ := bind_eq_ok.1 h
  have hw := (parseTokens_sound hread).1.writable
  refine ⟨fun e' he' => ?_, fun hnot hfinite hheight => ⟨e.reread, ?_, repr_reread hw⟩⟩
  · obtain ⟨-, -, -, rfl⟩ := (parse_repr_eq_ok_iff h).1 he'
    exact repr_reread hw
  · exact (parse_repr_eq_ok_iff h).2 ⟨hnot, hfinite, hheight, rfl⟩

theorem repr_reparses_negation :
    let names : Names := .ofList ["a"]
    let e : Expr := .binary (.connective .and) (.not (.reference "a")) (.reference "a")
    parse names "(NOT a) AND a" = .ok e ∧ ∃ e', parse names e.repr = .ok e' ∧ e'.repr = e.repr := by
  intro names e
  have hnegation : Derives 254 .expression [⟨"NOT"⟩, ⟨"a"⟩] (.not (.reference "a")) :=
    .negation rfl (.name (by decide))
  have hd : Derives 255 (.chain .conjunction)
      [⟨"("⟩, ⟨"NOT"⟩, ⟨"a"⟩, ⟨")"⟩, ⟨"AND"⟩, ⟨"a"⟩] e :=
    Derives.binary (.connective .and) rfl hnegation.grouped (.name (by decide))
  have hparse : parse names "(NOT a) AND a" = .ok e := by
    refine parse_of_derives (by decide +kernel) (hd.loosen nofun (by decide)) ⟨?_, ?_, ?_⟩
    · simp [e, occurrences, names]
      decide
    · simp [e, calls]
    · simp [e, height, maxDepth]
  exact ⟨hparse, (repr_reparses hparse).2 (by decide) (.inl (by decide)) (by decide)⟩

/-- Texts that are not read although they are those of formulas' trees: a negation that was grouped,
a number beyond all finite ones, and a sum that only its groupings kept from being too high. -/
theorem exists_repr_not_reparsed :
    (∃ e, parse (.ofList ["a"]) "a AND (NOT a)" = .ok e ∧
      ∀ e', parse (.ofList ["a"]) e.repr ≠ .ok e') ∧
    (∃ e, parse .empty (String.ofList ('1' :: List.replicate 309 '0')) = .ok e ∧
      ∀ e', parse .empty e.repr ≠ .ok e') ∧
    ∃ e, parse (.ofList ["a"])
        ("(" ++ (sums 128).repr ++ ")" ++ " + " ++ "(" ++ (sums 128).repr ++ ")") = .ok e ∧
      ∀ e', parse (.ofList ["a"]) e.repr ≠ .ok e' := by
  refine ⟨?_, ?_, ?_⟩
  · have hnegation : Derives 254 .expression [⟨"NOT"⟩, ⟨"a"⟩] (.not (.reference "a")) :=
      .negation rfl (.name (by decide))
    have hd : Derives 255 (.chain .conjunction) [⟨"a"⟩, ⟨"AND"⟩, ⟨"("⟩, ⟨"NOT"⟩, ⟨"a"⟩, ⟨")"⟩]
        (.binary (.connective .and) (.reference "a") (.not (.reference "a"))) :=
      Derives.binary (.connective .and) rfl (.name (by decide)) hnegation.grouped
    have hparse : parse (.ofList ["a"]) "a AND (NOT a)" =
        .ok (.binary (.connective .and) (.reference "a") (.not (.reference "a"))) := by
      refine parse_of_derives (by decide +kernel) (hd.loosen nofun (by decide)) ⟨?_, ?_, ?_⟩
      · simp [occurrences]
        decide
      · simp [calls]
      · simp [height, maxDepth]
    refine ⟨_, hparse, fun e' he' => ?_⟩
    have hnot := ((parse_repr_eq_ok_iff hparse).1 he').1
    revert hnot
    decide
  · have hparse := @parse_powerOfTen .empty 309
    refine ⟨_, hparse, fun e' he' => ?_⟩
    rcases ((parse_repr_eq_ok_iff hparse).1 he').2.1 with hfinite | hdefined
    · have hx := hfinite _ List.mem_cons_self
      revert hx
      decide +kernel
    · revert hdefined
      decide
  · have hparse := @parse_grouped_sums (.ofList ["a"]) (by decide) 128 (by decide)
    refine ⟨_, hparse, fun e' he' => ?_⟩
    have hheight := ((parse_repr_eq_ok_iff hparse).1 he').2.2.1
    rw [reread, reread_sums, followed_sums, height_sums] at hheight
    revert hheight
    decide

end Parser

end EstimateSheet
