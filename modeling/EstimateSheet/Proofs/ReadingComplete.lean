import EstimateSheet.Proofs.ReadingSound

/-!
# What is in the grammar is read

Where tokens form a phrase and the token after them does not carry it on (`Stops`), reading uses up
just these tokens. Its outcome is that of the checks on the tree (`follows_readPhrase`), the same
node or the same error, except that one error also shows the token that comes next, and that reading
stops where expressions are nested too deeply.

So a list of tokens is read as an expression if the grammar derives the expression from it and the
expression passes the checks, and in no other case (`parseTokens_eq_ok_iff`).
-/

namespace EstimateSheet

/-- The error without the token that was found instead of an opening parenthesis. -/
def FormulaError.unplaced : FormulaError → FormulaError
  | malformed (.uncalled function _) => malformed (.uncalled function none)
  | error => error

namespace Parser

/-- A result whose error does not show what was found instead of an opening parenthesis. -/
def outline {α : Type} (r : Result α) : Result α := r.mapError FormulaError.unplaced

theorem outline_eq_ok {α : Type} {r : Result α} {a : α} : outline r = .ok a ↔ r = .ok a := by
  rcases r with e | b
  · simp [outline, Except.mapError]
  · simp [outline, Except.mapError]

theorem outline_bind {α β : Type} {x y : Result α} {f g : α → Result β} (h : outline x = outline y)
    (hf : ∀ a, outline (f a) = outline (g a)) : outline (x >>= f) = outline (y >>= g) := by
  rcases y with e | a
  · rcases x with e' | a'
    · simpa [outline, bind, Except.bind, Except.mapError] using h
    · simp [outline, Except.mapError] at h
  · obtain rfl := outline_eq_ok.1 h
    exact hf a

/-- Reading comes to what the checks come to, except that it may have stopped before because
expressions are nested too deeply, which does not happen `within` the limit. -/
def Follows {α : Type} (within : Prop) (x y : Result α) : Prop :=
  outline x = outline y ∨ ¬ within ∧ x = malformed .tooDeep

namespace Follows

variable {α β : Type} {within : Prop}

theorem of_eq {x y : Result α} (h : x = y) : Follows within x y := .inl (congrArg outline h)

theorem bind {x : Result α} {f g : α → Result β} (hf : ∀ a, Follows within (f a) (g a)) :
    Follows within (x >>= f) (x >>= g) := by
  rcases x with e | a
  · exact of_eq rfl
  · exact hf a

theorem bind_rest {x : Result (α × List Token)} {y : Result α} {rest : List Token}
    {f : α × List Token → Result β} {g : α → Result β}
    (h : Follows within x (do let a ← y; .ok (a, rest)))
    (hf : ∀ a, Follows within (f (a, rest)) (g a)) : Follows within (x >>= f) (y >>= g) := by
  rcases h with h | ⟨hw, rfl⟩
  · rcases y with e | a
    · exact .inl (outline_bind h fun _ => rfl)
    · obtain rfl := outline_eq_ok.1 h
      exact hf a
  · exact .inr ⟨hw, rfl⟩

end Follows

theorem outline_reference (names : Names) (name : String) (next : Option Token) :
    outline (reference names name next) = outline (reference names name none) := by
  unfold reference
  split_ifs
  · rfl
  · rfl
  · rfl

/-- What comes next carries on no phrase whose operators have at most this level. -/
def Stops (level : Nat) (rest : List Token) : Prop :=
  ∀ t ∈ rest.head?, t.text ≠ "(" ∧ ∀ op, Operator.ofSign? t.text = some op → level < op.level

namespace Stops

variable {level level' : Nat} {t : Token} {rest : List Token}

theorem nil : Stops level [] := nofun

theorem mono (h : Stops level' rest) (hl : level ≤ level') : Stops level rest := fun t ht =>
  ⟨(h t ht).1, fun op hop => Nat.lt_of_le_of_lt hl ((h t ht).2 op hop)⟩

theorem closing (ht : t.text = ")") : Stops level (t :: rest) := by
  rintro _ ⟨⟩
  rw [ht]
  exact ⟨by decide, nofun⟩

theorem comma (ht : t.text = ",") : Stops level (t :: rest) := by
  rintro _ ⟨⟩
  rw [ht]
  exact ⟨by decide, nofun⟩

theorem operator {layer : Layer} {op : Operator} (ht : (t.text, op) ∈ layer.operators)
    (hl : level < layer.level) : Stops level (t :: rest) := by
  obtain ⟨hs, ho⟩ := Layer.mem_operators_iff.1 ht
  rintro _ ⟨⟩
  rw [← hs]
  refine ⟨?_, fun op' hop => ?_⟩
  · rcases op with op | op | op <;> cases op <;> decide
  · rw [Operator.ofSign?_eq_some_iff.2 rfl, Option.some.injEq] at hop
    rw [← hop]
    omega

theorem continues {n : Nat} {layer : Layer} {ts : List Token} {more : List (Operator × Expr)}
    (hc : Continues n layer ts more) (h : Stops layer.level rest) :
    Stops layer.operand.level (ts ++ rest) := by
  have hl := layer.operand_level
  rcases hc with _ | ⟨ht, -, -⟩
  · exact h.mono (by omega)
  · exact operator ht (by omega)

theorem text_ne (h : Stops level (t :: rest)) : t.text ≠ "(" := (h t rfl).1

theorem operatorAt?_eq_none (h : Stops level (t :: rest)) : operatorAt? level t = none := by
  rw [operatorAt?, Option.filter_eq_none_iff]
  intro op hop
  have := (h t rfl).2 op hop
  simp only [beq_iff_eq]
  omega

end Stops

variable (names : Names)

/-- The node of `left` with the operators and operands that follow it, or the first thing that is
refused in these. -/
def joinMore (left : Node) : List (Operator × Expr) → Result Node
  | [] => .ok left
  | (op, e) :: more => do
    let right ← e.toNode names
    let node ← Node.binary op left right
    joinMore node more

theorem toNode_chained : ∀ (more : List (Operator × Expr)) (first : Expr),
    (first.chained more).toNode names = (do
      let left ← first.toNode names
      joinMore names left more)
  | [], first => by
    simp only [Expr.chained, List.foldl_nil, joinMore]
    rcases first.toNode names with e | node <;> rfl
  | (op, e) :: more, first => by
    rw [show first.chained ((op, e) :: more) = (Expr.binary op first e).chained more from rfl,
      toNode_chained more]
    simp only [Expr.toNode, joinMore, bind_assoc]

/-- A name that no parenthesis follows is read as a reference. -/
theorem readFactor_reference {t : Token} {rest : List Token} (nesting : Nat) (ht : t.isName = true)
    (hs : Stops 0 rest) : readPhrase names nesting .factor (t :: rest) = (do
      let node ← reference names t.text rest.head?
      .ok (node, rest)) := by
  rw [readPhrase_factor]
  simp only [Token.text_ne_of_isName ht, ht, if_true, if_false]
  rcases rest with _ | ⟨next, rest⟩
  · rfl
  · simp only [hs.text_ne, if_false, List.head?_cons]

theorem outline_readFactor_reference {t : Token} {rest : List Token} (nesting : Nat)
    (ht : t.isName = true) (hs : Stops 0 rest) :
    outline (readPhrase names nesting .factor (t :: rest)) = outline (do
      let node ← reference names t.text none
      .ok (node, rest)) := by
  rw [readFactor_reference names nesting ht hs]
  exact outline_bind (outline_reference names t.text rest.head?) fun _ => rfl

theorem readArguments_of_separated {n : Nat} {ts rest : List Token} {es : List Expr} (nesting : Nat)
    (h : Separated n ts es) :
    readArguments names nesting (ts ++ rest) = readSeparated names nesting (ts ++ rest) := by
  obtain ⟨t, ts, rfl, ht⟩ := h.begins
  rw [readArguments_eq]
  simp only [List.cons_append, ht, if_false]

section Phrases

variable {within : Prop}

mutual

/-- Reading a phrase of the grammar has the outcome of the checks on its tree. -/
theorem follows_readPhrase {n : Nat} : ∀ {p : Phrase} {ts : List Token} {e : Expr},
    Derives n p ts e → ∀ (nesting : Nat) (rest : List Token), (within → nesting + n < maxDepth) →
      Stops p.level rest →
      Follows within (readPhrase names nesting p (ts ++ rest)) (do
        let node ← e.toNode names
        .ok (node, rest))
  | _, _, _, .negation ht hd, nesting, rest, hn, hs => by
    rw [readPhrase_expression]
    split_ifs with hlimit
    · exact .inr ⟨fun hw => by have := hn hw; omega, rfl⟩
    · simp only [List.cons_append, ht, if_true, Expr.toNode, bind_assoc]
      exact .bind_rest (follows_readPhrase hd nesting rest hn hs) fun _ => .of_eq rfl
  | _, _, _, .plain hd, nesting, rest, hn, hs => by
    -- a chain never begins with `NOT`, so it is not taken for a negation
    have hchain := follows_readPhrase hd nesting rest hn hs
    rw [readPhrase_expression]
    split_ifs with hlimit
    · exact .inr ⟨fun hw => by have := hn hw; omega, rfl⟩
    · obtain ⟨t, ts, rfl, hb | ⟨hp, -⟩⟩ := hd.begins
      · simp only [List.cons_append, hb.text_ne.1, if_false]
        exact hchain
      · cases hp
  | _, _, _, .chain hd hc, nesting, rest, hn, hs => by
    rw [readPhrase_chain, toNode_chained, List.append_assoc, bind_assoc]
    exact .bind_rest (follows_readPhrase hd nesting _ hn (.continues hc hs))
      fun left => follows_readMore hc nesting left rest hn hs
  | _, _, _, .group ho hd hc, nesting, rest, hn, hs => by
    rw [readPhrase_factor]
    simp only [List.cons_append, List.append_assoc, List.nil_append, ho, if_true]
    refine .bind_rest (follows_readPhrase hd (nesting + 1) _ (fun hw => by have := hn hw; omega)
      (.closing hc)) fun node => ?_
    simp only [closed, hc, if_true]
    exact .of_eq rfl
  | _, _, _, .emptyCall hf ho hc, nesting, rest, hn, hs => by
    rw [readPhrase_factor]
    simp only [List.cons_append, List.nil_append, Token.text_ne_of_isName hf, hf, ho, if_true,
      if_false, readArguments_eq, hc, Expr.toNode, Expr.toNodes, bind_assoc]
    exact .of_eq rfl
  | _, _, _, .call hf ho hsep hc, nesting, rest, hn, hs => by
    rw [readPhrase_factor]
    simp only [List.cons_append, List.append_assoc, List.nil_append, Token.text_ne_of_isName hf, hf,
      ho, if_true, if_false, readArguments_of_separated names nesting hsep, Expr.toNode, bind_assoc]
    exact .bind_rest (follows_readSeparated hsep nesting _ rest
      (fun hw => by have := hn hw; omega) hc) fun _ => .of_eq rfl
  | _, _, _, .reference ht, nesting, rest, _, hs =>
    .inl (outline_readFactor_reference names nesting ht hs)
  | _, _, _, .number ht, nesting, rest, _, _ => by
    rw [readPhrase_factor]
    simp only [List.cons_append, List.nil_append, Token.text_ne_of_isNumber ht,
      Token.isName_eq_false_of_isNumber ht, ht, if_true, if_false, Bool.false_eq_true]
    exact .of_eq rfl

theorem follows_readMore {n : Nat} {layer : Layer} : ∀ {ts : List Token}
    {more : List (Operator × Expr)}, Continues n layer ts more →
    ∀ (nesting : Nat) (left : Node) (rest : List Token), (within → nesting + n < maxDepth) →
      Stops layer.level rest →
      Follows within (readMore names nesting layer left (ts ++ rest)) (do
        let node ← joinMore names left more
        .ok (node, rest))
  | _, _, .done, nesting, left, rest, _, hs => by
    rw [readMore_eq]
    rcases rest with _ | ⟨t, rest⟩
    · exact .of_eq rfl
    · simp only [List.nil_append, hs.operatorAt?_eq_none]
      exact .of_eq rfl
  | _, _, .more ht hd hc, nesting, left, rest, hn, hs => by
    rw [readMore_eq]
    simp only [List.cons_append, List.append_assoc, operatorAt?_eq_some_iff.2 ht, joinMore,
      bind_assoc]
    refine .bind_rest (follows_readPhrase hd nesting _ hn (.continues hc hs))
      fun right => .bind fun node => ?_
    exact follows_readMore hc nesting node rest hn hs

theorem follows_readSeparated {n : Nat} : ∀ {ts : List Token} {es : List Expr}, Separated n ts es →
    ∀ (nesting : Nat) (closing : Token) (rest : List Token),
      (within → nesting + 1 + n < maxDepth) → closing.text = ")" →
      Follows within (readSeparated names nesting (ts ++ closing :: rest)) (do
        let nodes ← Expr.toNodes names es
        .ok (nodes, rest))
  | _, _, .one hd, nesting, closing, rest, hn, hc => by
    rw [readSeparated_eq]
    simp only [Expr.toNodes, bind_assoc]
    refine .bind_rest (follows_readPhrase hd (nesting + 1) _ hn (.closing hc)) fun arg => ?_
    simp only [hc, closed, if_true]
    exact .of_eq rfl
  | _, _, .more hd hcomma hsep, nesting, closing, rest, hn, hc => by
    rw [readSeparated_eq]
    simp only [List.append_assoc, List.cons_append, Expr.toNodes, bind_assoc]
    refine .bind_rest (follows_readPhrase hd (nesting + 1) _ hn (.comma hcomma)) fun arg => ?_
    simp only [hcomma, if_true]
    exact .bind_rest (follows_readSeparated hsep nesting closing rest hn hc)
      fun _ => .of_eq rfl

end

/-- Within the limit on nesting reading is not stopped by it. -/
theorem outline_readPhrase {n : Nat} {p : Phrase} {ts : List Token} {e : Expr}
    (hd : Derives n p ts e) (nesting : Nat) (rest : List Token) (hn : nesting + n < maxDepth)
    (hs : Stops p.level rest) : outline (readPhrase names nesting p (ts ++ rest)) = outline (do
      let node ← e.toNode names
      .ok (node, rest)) := by
  rcases follows_readPhrase names hd nesting rest (fun _ : True => hn) hs with h | ⟨hw, -⟩
  · exact h
  · exact absurd trivial hw

end Phrases

variable {names}

/-- What is read is in the grammar and passes the checks. -/
theorem parseTokens_sound {ts : List Token} {e : Expr} (h : parseTokens names ts = .ok e) :
    Derives (maxDepth - 1) .expression ts e ∧ e.Admissible names := by
  obtain ⟨node, hr, rfl⟩ := (parseTokens_eq_ok names).1 h
  obtain ⟨-, ⟨used, hts, hd⟩, ha⟩ := readPhrase_sound ts 0 .expression hr
  rw [List.append_nil] at hts
  rw [hts]
  exact ⟨hd, ((node.expr.toNode_eq_ok node).1 ha).2⟩

/-- What is in the grammar and passes the checks is read. -/
theorem parseTokens_complete {ts : List Token} {e : Expr}
    (hd : Derives (maxDepth - 1) .expression ts e) (he : e.Admissible names) :
    parseTokens names ts = .ok e := by
  have h := outline_readPhrase names hd 0 [] (by decide) .nil
  rw [(e.toNode_eq_ok _).2 ⟨rfl, he⟩, List.append_nil] at h
  exact (parseTokens_eq_ok names).2 ⟨.ofExpr e, outline_eq_ok.1 h, rfl⟩

/-- The tokens are read as an expression exactly if the whole of them forms it in the grammar, it
reads defined names only, its calls are of registered functions with numbers of arguments they take,
it is at most 256 high, and none of its subexpressions is enclosed by more than 255 grouping
parentheses and argument lists. -/
theorem parseTokens_eq_ok_iff {ts : List Token} {e : Expr} :
    parseTokens names ts = .ok e ↔ Derives 255 .expression ts e ∧
      (∀ name ∈ e.occurrences, names.contains name = true) ∧
      (∀ call ∈ e.calls, Registry.Accepts call) ∧ e.height ≤ 256 := by
  constructor
  · intro h
    obtain ⟨hd, hdef, hcall, hh⟩ := parseTokens_sound h
    exact ⟨hd, hdef, hcall, hh⟩
  · rintro ⟨hd, hdef, hcall, hh⟩
    exact parseTokens_complete hd ⟨hdef, hcall, hh⟩

section Formulas

variable {formula : String}

theorem parse_of_derives {ts : List Token} {e : Expr} (hs : Token.scan formula = .ok ts)
    (hd : Derives (maxDepth - 1) .expression ts e) (he : e.Admissible names) :
    parse names formula = .ok e :=
  bind_eq_ok.2 ⟨ts, hs, parseTokens_complete hd he⟩

theorem parse_number {t : Token} (hs : Token.scan formula = .ok [t]) (ht : t.isNumber) :
    parse names formula = .ok (.number t.value) := by
  refine parse_of_derives hs (.expression_of_factor (.number ht)) ⟨?_, ?_, ?_⟩
  · simp [Expr.occurrences]
  · simp [Expr.calls]
  · simp [Expr.height, maxDepth]

theorem parse_reference {t : Token} (hs : Token.scan formula = .ok [t]) (ht : t.isName)
    (hdefined : names.contains t.text = true) : parse names formula = .ok (.reference t.text) := by
  refine parse_of_derives hs (.expression_of_factor (.reference ht)) ⟨?_, ?_, ?_⟩
  · simp [Expr.occurrences, hdefined]
  · simp [Expr.calls]
  · simp [Expr.height, maxDepth]

/-- A call with two numbers is read if the function takes as many. -/
theorem parse_call {f t u : Token}
    (hs : Token.scan formula = .ok [f, ⟨"("⟩, t, ⟨","⟩, u, ⟨")"⟩]) (hf : f.isName)
    (ht : t.isNumber) (hu : u.isNumber) (hcall : Registry.Accepts (f.text, 2)) :
    parse names formula = .ok (.call f.text [.number t.value, .number u.value]) := by
  have hargs : Separated 254 [t, ⟨","⟩, u] [.number t.value, .number u.value] :=
    .more (.expression_of_factor (.number ht)) rfl (.one (.expression_of_factor (.number hu)))
  refine parse_of_derives hs (.expression_of_factor (.call hf rfl hargs rfl)) ⟨?_, ?_, ?_⟩
  · simp [Expr.occurrences, Expr.occurrencesAll]
  · simpa [Expr.calls, Expr.callsAll] using hcall
  · simp [Expr.height, Expr.heights, maxDepth]

end Formulas

end Parser

end EstimateSheet
