import EstimateSheet.Proofs.Reading

/-!
# What is read is in the grammar

The tokens that reading a phrase uses up form the phrase, and its tree passes the checks
(`readPhrase_sound`). The induction is on the number of tokens; where an operand is read first no
token is used up, and the layer gets tighter.
-/

namespace EstimateSheet

/-- The place of a phrase in the order in which phrases are tried without using up tokens. -/
def Phrase.rank : Phrase → Nat
  | expression => 7
  | chain layer => layer.level
  | factor => 0

theorem Layer.rank_operand_lt (layer : Layer) : layer.operand.rank < (Phrase.chain layer).rank := by
  cases layer <;> decide

/-- What is so of the phrases in fewer tokens and of the phrase that is read first in the same ones
is so of all phrases. -/
theorem Phrase.reading_induction {P : List Token → Phrase → Prop}
    (factor : ∀ ts, (∀ ts' : List Token, ts'.length < ts.length → ∀ p, P ts' p) → P ts .factor)
    (chain : ∀ ts layer, (∀ ts' : List Token, ts'.length < ts.length → ∀ p, P ts' p) →
      P ts layer.operand → P ts (.chain layer))
    (expression : ∀ ts, (∀ ts' : List Token, ts'.length < ts.length → ∀ p, P ts' p) →
      P ts (.chain .disjunction) → P ts .expression) : ∀ ts p, P ts p
  | ts, .factor => factor ts fun ts' _ p => reading_induction factor chain expression ts' p
  | ts, .chain layer =>
    chain ts layer (fun ts' _ p => reading_induction factor chain expression ts' p)
      (reading_induction factor chain expression ts layer.operand)
  | ts, .expression =>
    expression ts (fun ts' _ p => reading_induction factor chain expression ts' p)
      (reading_induction factor chain expression ts (.chain .disjunction))
termination_by ts p => (ts.length, p.rank)
decreasing_by
  · exact .left _ _ ‹_›
  · exact .left _ _ ‹_›
  · exact .right _ layer.rank_operand_lt
  · exact .left _ _ ‹_›
  · exact .right _ (by decide)

namespace Parser

theorem closed_eq_ok {α : Type} {a b : α} {ts rest : List Token} (h : closed a ts = .ok (b, rest)) :
    b = a ∧ ∃ t, t.text = ")" ∧ ts = t :: rest := by
  rcases ts with _ | ⟨t, ts⟩
  · simp [closed, malformed] at h
  · simp only [closed] at h
    split_ifs at h with ht
    · simp only [Except.ok.injEq, Prod.mk.injEq] at h
      obtain ⟨rfl, rfl⟩ := h
      exact ⟨rfl, t, ht, rfl⟩
    · simp [malformed] at h

variable {names : Names}

variable (names) in
/-- Some of the tokens form the phrase, with a tree that passes the checks, and the others are left.
An expression is not nested too deeply. -/
structure PhraseRead (nesting : Nat) (p : Phrase) (ts : List Token) (node : Node)
    (rest : List Token) : Prop where
  nesting_lt : p = .expression → nesting < maxDepth
  derives : ∃ used, ts = used ++ rest ∧ Derives (maxDepth - 1 - nesting) p used node.expr
  admitted : node.Admitted names

variable (names) in
/-- Some of the tokens continue a chain from `left`, and the others are left. -/
structure MoreRead (nesting : Nat) (layer : Layer) (left : Node) (ts : List Token) (node : Node)
    (rest : List Token) : Prop where
  continues : ∃ used more, ts = used ++ rest ∧
    Continues (maxDepth - 1 - nesting) layer used more ∧ node.expr = left.expr.chained more
  admitted : node.Admitted names

variable (names) in
/-- Some of the tokens are arguments with a closing parenthesis after them, and the others are
left. -/
structure SeparatedRead (nesting : Nat) (ts : List Token) (args : List Node) (rest : List Token) :
    Prop where
  nesting_lt : nesting + 1 < maxDepth
  separated : ∃ used closing, closing.text = ")" ∧ ts = used ++ closing :: rest ∧
    Separated (maxDepth - 1 - (nesting + 1)) used (args.map (·.expr))
  admitted : ∀ arg ∈ args, arg.Admitted names

variable (names) in
/-- Any phrase that is read from the tokens is one. -/
def SoundAt (ts : List Token) : Prop :=
  ∀ nesting p {node rest}, readPhrase names nesting p ts = .ok (node, rest) →
    PhraseRead names nesting p ts node rest

section Step

variable {n : Nat} (ih : ∀ ts : List Token, ts.length < n → SoundAt names ts)

include ih

theorem readMore_sound (nesting : Nat) (layer : Layer) : ∀ (left : Node) (ts : List Token)
    {node : Node} {rest : List Token}, ts.length < n → left.Admitted names →
      readMore names nesting layer left ts = .ok (node, rest) →
      MoreRead names nesting layer left ts node rest
  | left, [], node, rest, _, hl, h => by
    rw [readMore_eq] at h
    simp only [Except.ok.injEq, Prod.mk.injEq] at h
    obtain ⟨rfl, rfl⟩ := h
    exact ⟨⟨[], [], rfl, .done, rfl⟩, hl⟩
  | left, t :: ts, node, rest, hn, hl, h => by
    rw [readMore_eq] at h
    dsimp only at h
    rw [List.length_cons] at hn
    rcases hop : operatorAt? layer.level t with _ | op
    · simp only [hop, Except.ok.injEq, Prod.mk.injEq] at h
      obtain ⟨rfl, rfl⟩ := h
      exact ⟨⟨[], [], rfl, .done, rfl⟩, hl⟩
    · simp only [hop, bind_eq_ok, Prod.exists] at h
      obtain ⟨right, rest', hr, joined, hj, hm⟩ := h
      have hlen := length_of_readPhrase names nesting hr
      obtain ⟨-, ⟨used, hts, hd⟩, ha⟩ := ih ts (by omega) nesting layer.operand hr
      obtain ⟨⟨used', more, rfl, hc, he⟩, ha'⟩ :=
        readMore_sound nesting layer joined rest' (by omega) (hl.binary ha hj) hm
      refine ⟨⟨t :: (used ++ used'), (op, right.expr) :: more, by simp [hts], ?_, ?_⟩, ha'⟩
      · exact .more (operatorAt?_eq_some_iff.1 hop) hd hc
      · rw [he, (Node.binary_eq_ok.1 hj).1]
        rfl
termination_by _ ts => ts.length

theorem readSeparated_sound (nesting : Nat) (ts : List Token) {args : List Node}
    {rest : List Token} (hn : ts.length < n)
    (h : readSeparated names nesting ts = .ok (args, rest)) :
    SeparatedRead names nesting ts args rest := by
  rw [readSeparated_eq, bind_eq_ok] at h
  obtain ⟨⟨arg, after⟩, harg, h⟩ := h
  have hlen := length_of_readPhrase names (nesting + 1) harg
  obtain ⟨hlt, ⟨used, hts, hd⟩, ha⟩ := ih ts hn (nesting + 1) .expression harg
  rcases after with _ | ⟨t, after⟩
  · simp [malformed] at h
  dsimp only at h
  have hafter : after.length < ts.length := Nat.lt_of_succ_lt hlen
  split_ifs at h with hcomma
  · simp only [bind_eq_ok, Prod.exists, Except.ok.injEq, Prod.mk.injEq] at h
    obtain ⟨args, rest', hargs, rfl, rfl⟩ := h
    obtain ⟨-, ⟨used', closing, hc, rfl, hs⟩, has⟩ :=
      readSeparated_sound nesting after (by omega) hargs
    refine ⟨hlt rfl, ⟨used ++ t :: used', closing, hc, by simp [hts], .more hd hcomma hs⟩, ?_⟩
    exact List.forall_mem_cons.2 ⟨ha, has⟩
  · obtain ⟨rfl, closing, hc, heq⟩ := closed_eq_ok h
    refine ⟨hlt rfl, ⟨used, closing, hc, by rw [hts, heq], .one hd⟩, ?_⟩
    exact List.forall_mem_singleton.2 ha
termination_by ts.length

/-- A call is its name, a parenthesis and what its arguments are read from. -/
theorem readArguments_sound {nesting : Nat} {function opening : Token} {ts rest : List Token}
    {args : List Node} (hn : ts.length < n) (hf : function.isName = true)
    (ho : opening.text = "(") (h : readArguments names nesting ts = .ok (args, rest)) :
    (∃ used, function :: opening :: ts = used ++ rest ∧ Derives (maxDepth - 1 - nesting) .factor
      used (.call function.text (args.map (·.expr)))) ∧ ∀ arg ∈ args, arg.Admitted names := by
  have hsep : readSeparated names nesting ts = .ok (args, rest) →
      (∃ used, function :: opening :: ts = used ++ rest ∧ Derives (maxDepth - 1 - nesting) .factor
        used (.call function.text (args.map (·.expr)))) ∧ ∀ arg ∈ args, arg.Admitted names := by
    intro hs
    obtain ⟨hlt, ⟨used, closing, hc, rfl, hsep⟩, ha⟩ := readSeparated_sound ih nesting ts hn hs
    refine ⟨⟨function :: opening :: (used ++ [closing]), by simp, ?_⟩, ha⟩
    rw [show maxDepth - 1 - nesting = maxDepth - 1 - (nesting + 1) + 1 by omega]
    exact .call hf ho hsep hc
  rw [readArguments_eq] at h
  rcases ts with _ | ⟨t, ts⟩
  · exact hsep h
  · dsimp only at h
    split_ifs at h with hc
    · simp only [Except.ok.injEq, Prod.mk.injEq] at h
      obtain ⟨rfl, rfl⟩ := h
      exact ⟨⟨[function, opening, t], rfl, .emptyCall hf ho hc⟩, by simp⟩
    · exact hsep h

end Step

section Phrases

variable {ts : List Token} (ih : ∀ ts' : List Token, ts'.length < ts.length → SoundAt names ts')
  (nesting : Nat) {node : Node} {rest : List Token}

include ih

theorem readFactor_sound (h : readPhrase names nesting .factor ts = .ok (node, rest)) :
    PhraseRead names nesting .factor ts node rest := by
  rw [readPhrase_factor] at h
  rcases ts with _ | ⟨t, ts⟩
  · simp [malformed] at h
  dsimp only at h
  split_ifs at h with ho hname hnumber
  · simp only [bind_eq_ok, Prod.exists] at h
    obtain ⟨inner, rest', hi, hc⟩ := h
    obtain ⟨hn, ⟨used, rfl, hd⟩, ha⟩ := ih ts (by simp) (nesting + 1) .expression hi
    obtain ⟨rfl, closing, hclosing, rfl⟩ := closed_eq_ok hc
    refine ⟨nofun, ⟨t :: (used ++ [closing]), by simp, ?_⟩, ha⟩
    have hn := hn rfl
    rw [show maxDepth - 1 - nesting = maxDepth - 1 - (nesting + 1) + 1 by omega]
    exact .group ho hd hclosing
  · have href : ∀ {next : Option Token} {node : Node}, reference names t.text next = .ok node →
        PhraseRead names nesting .factor (t :: ts) node ts := by
      intro next node hr
      refine ⟨nofun, ⟨[t], rfl, ?_⟩, .reference hr⟩
      rw [(reference_eq_ok.1 hr).1]
      exact .reference hname
    rcases ts with _ | ⟨next, ts⟩
    · simp only [bind_eq_ok, Except.ok.injEq, Prod.mk.injEq] at h
      obtain ⟨_, hr, rfl, rfl⟩ := h
      exact href hr
    · dsimp only at h
      split_ifs at h with ho'
      · simp only [bind_eq_ok, Prod.exists, Except.ok.injEq, Prod.mk.injEq] at h
        obtain ⟨args, rest', hargs, _, hcall, rfl, rfl⟩ := h
        have hlen : ts.length < (t :: next :: ts).length := by
          simp only [List.length_cons]
          omega
        obtain ⟨⟨used, hts, hd⟩, ha⟩ := readArguments_sound ih hlen hname ho' hargs
        refine ⟨nofun, ⟨used, hts, ?_⟩, .call ha hcall⟩
        rw [(call_eq_ok.1 hcall).1]
        exact hd
      · simp only [bind_eq_ok, Except.ok.injEq, Prod.mk.injEq] at h
        obtain ⟨_, hr, rfl, rfl⟩ := h
        exact href hr
  · simp only [Except.ok.injEq, Prod.mk.injEq] at h
    obtain ⟨rfl, rfl⟩ := h
    exact ⟨nofun, ⟨[t], rfl, .number hnumber⟩, .number _⟩
  · simp [malformed] at h

theorem readChain_sound {layer : Layer}
    (hop : ∀ {node rest}, readPhrase names nesting layer.operand ts = .ok (node, rest) →
      PhraseRead names nesting layer.operand ts node rest)
    (h : readPhrase names nesting (.chain layer) ts = .ok (node, rest)) :
    PhraseRead names nesting (.chain layer) ts node rest := by
  rw [readPhrase_chain, bind_eq_ok] at h
  obtain ⟨⟨first, rest'⟩, hf, hm⟩ := h
  obtain ⟨-, ⟨used, hts, hd⟩, ha⟩ := hop hf
  obtain ⟨⟨used', more, rfl, hc, he⟩, ha'⟩ :=
    readMore_sound ih nesting layer first rest' (length_of_readPhrase names nesting hf) ha hm
  refine ⟨nofun, ⟨used ++ used', by rw [hts, List.append_assoc], ?_⟩, ha'⟩
  rw [he]
  exact .chain hd hc

theorem readExpression_sound
    (hch : ∀ {node rest}, readPhrase names nesting (.chain .disjunction) ts = .ok (node, rest) →
      PhraseRead names nesting (.chain .disjunction) ts node rest)
    (h : readPhrase names nesting .expression ts = .ok (node, rest)) :
    PhraseRead names nesting .expression ts node rest := by
  rw [readPhrase_expression] at h
  split_ifs at h with hn
  · simp [malformed] at h
  have hplain : readPhrase names nesting (.chain .disjunction) ts = .ok (node, rest) →
      PhraseRead names nesting .expression ts node rest := by
    intro h
    obtain ⟨-, ⟨used, hts, hd⟩, ha⟩ := hch h
    exact ⟨fun _ => by omega, ⟨used, hts, .plain hd⟩, ha⟩
  rcases ts with _ | ⟨t, ts⟩
  · exact hplain h
  · dsimp only at h
    split_ifs at h with ht
    · simp only [bind_eq_ok, Prod.exists, Except.ok.injEq, Prod.mk.injEq] at h
      obtain ⟨operand, rest', ho, _, hnot, rfl, rfl⟩ := h
      obtain ⟨-, ⟨used, rfl, hd⟩, ha⟩ := ih ts (by simp) nesting (.chain .disjunction) ho
      refine ⟨fun _ => by omega, ⟨t :: used, rfl, ?_⟩, ha.not hnot⟩
      rw [(Node.not_eq_ok.1 hnot).1]
      exact .negation ht hd
    · exact hplain h

end Phrases

/-- What is read as a phrase is one. -/
theorem readPhrase_sound (ts : List Token) : SoundAt names ts := by
  intro nesting p
  induction ts, p using Phrase.reading_induction generalizing nesting with
  | factor ts ih => exact readFactor_sound (fun ts' hlt nesting p => ih ts' hlt p nesting) nesting
  | chain ts layer ih hop =>
    exact readChain_sound (fun ts' hlt nesting p => ih ts' hlt p nesting) nesting (hop nesting)
  | expression ts ih hch =>
    exact readExpression_sound (fun ts' hlt nesting p => ih ts' hlt p nesting) nesting
      (hch nesting)

end Parser

end EstimateSheet
