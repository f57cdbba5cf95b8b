import EstimateSheet.Proofs.Grammar
import EstimateSheet.Proofs.Admission

/-!
# The functions that read phrases

Reading keeps with each result a proof that fewer tokens are left. `plain` forgets the proof, and
what reading does is stated for the plain results, one equation for each kind of phrase
(`readPhrase_expression`, `readPhrase_chain`, `readPhrase_factor`) and for what goes on inside them
(`readMore_eq`, `readArguments_eq`, `readSeparated_eq`). An operator is read at the level of its
layer (`operatorAt?_eq_some_iff`).
-/

namespace EstimateSheet

namespace Operator

theorem ofSign?_eq_some_iff {text : String} {op : Operator} :
    ofSign? text = some op ↔ op.sign = text := by
  constructor
  · intro h
    simpa using List.find?_some h
  · rintro rfl
    rcases op with op | op | op <;> cases op <;> rfl

end Operator

namespace Layer

/-- The level at which the operators of a layer are read. -/
def level : Layer → Nat
  | disjunction => 6
  | conjunction => 5
  | comparison => 4
  | sum => 3
  | product => 2
  | power => 1

theorem mem_operators_iff {layer : Layer} {text : String} {op : Operator} :
    (text, op) ∈ layer.operators ↔ op.sign = text ∧ op.level = layer.level := by
  cases layer <;> rcases op with op | op | op <;> cases op <;>
    simp [operators, level, Operator.sign, Arithmetic.sign, Comparison.sign, Connective.sign,
      Operator.level, eq_comm]

end Layer

/-- The level of the loosest operators that a phrase takes in. -/
def Phrase.level : Phrase → Nat
  | expression => Operator.topLevel
  | chain layer => layer.level
  | factor => 0

theorem Layer.operand_level (layer : Layer) : layer.operand.level + 1 = layer.level := by
  cases layer <;> rfl

namespace Parser

theorem operatorAt?_eq_some_iff {layer : Layer} {t : Token} {op : Operator} :
    operatorAt? layer.level t = some op ↔ (t.text, op) ∈ layer.operators := by
  rw [operatorAt?, Option.filter_eq_some_iff, Operator.ofSign?_eq_some_iff, Layer.mem_operators_iff,
    beq_iff_eq]

/-- A result of reading without the proof that fewer tokens are left. -/
def plain {α : Type} {P : List Token → Prop} (r : Result (α × { rest // P rest })) :
    Result (α × List Token) :=
  r.map fun (a, rest) => (a, rest.1)

theorem rest_of_plain {α : Type} {P : List Token → Prop} {r : Result (α × { rest // P rest })}
    {a : α} {rest : List Token} (h : plain r = .ok (a, rest)) : P rest := by
  rcases r with e | ⟨a', rest', hr⟩
  · simp [plain, Except.map] at h
  · simp only [plain, Except.map, Except.ok.injEq, Prod.mk.injEq] at h
    obtain ⟨-, rfl⟩ := h
    exact hr

variable (names : Names) (nesting : Nat)

/-- Read a phrase of an expression that `nesting` others enclose. -/
def readPhrase (p : Phrase) (ts : List Token) : Result (Node × List Token) :=
  match p with
  | .expression => plain (expression names nesting ts)
  | .chain layer => plain (chain names (nesting + 1) layer.level ts)
  | .factor => plain (factor names (nesting + 1) ts)

/-- Read the operators of a layer after an operand, with the operands that follow them. -/
def readMore (layer : Layer) (left : Node) (ts : List Token) : Result (Node × List Token) :=
  plain (links names (nesting + 1) layer.operand.level left ts)

/-- Read the arguments of a call and the parenthesis after them. -/
def readArguments (ts : List Token) : Result (List Node × List Token) :=
  plain (arguments names (nesting + 1) ts)

/-- Read one argument or more and the parenthesis after them. -/
def readSeparated (ts : List Token) : Result (List Node × List Token) :=
  plain (argumentList names (nesting + 1) ts)

/-- A closing parenthesis after which `a` has been read. -/
def closed {α : Type} (a : α) (ts : List Token) : Result (α × List Token) :=
  match ts with
  | [] => malformed (.unclosed none)
  | t :: rest => if t.text = ")" then .ok (a, rest) else malformed (.unclosed (some t))

theorem readPhrase_expression (ts : List Token) :
    readPhrase names nesting .expression ts =
      if maxDepth ≤ nesting then malformed .tooDeep
      else
        match ts with
        | [] => readPhrase names nesting (.chain .disjunction) []
        | t :: rest =>
          if t.text = "NOT" then do
            let (operand, rest) ← readPhrase names nesting (.chain .disjunction) rest
            let node ← operand.not
            .ok (node, rest)
          else readPhrase names nesting (.chain .disjunction) (t :: rest) := by
  simp only [readPhrase, Layer.level]
  rw [expression.eq_def]
  split
  · rfl
  · rcases ts with _ | ⟨t, rest⟩
    · rfl
    · dsimp only [Operator.topLevel]
      split
      · rcases chain names (nesting + 1) 6 rest with e | ⟨operand, rest, h⟩
        · rfl
        · simp only [plain, bind, Except.bind, Except.map]
          rcases operand.not with e | node <;> rfl
      · rfl

theorem readPhrase_operand (layer : Layer) (ts : List Token) :
    readPhrase names nesting layer.operand ts =
      plain (chain names (nesting + 1) layer.operand.level ts) := by
  cases layer with
  | power =>
    simp only [Layer.operand, Phrase.level, readPhrase]
    rw [chain.eq_def]
  | _ => rfl

theorem readPhrase_chain (layer : Layer) (ts : List Token) :
    readPhrase names nesting (.chain layer) ts = (do
      let (first, rest) ← readPhrase names nesting layer.operand ts
      readMore names nesting layer first rest) := by
  rw [readPhrase_operand]
  simp only [readPhrase, readMore]
  rw [← layer.operand_level, chain.eq_def]
  dsimp only
  rcases chain names (nesting + 1) layer.operand.level ts with e | ⟨first, rest, h⟩
  · rfl
  · simp only [plain, bind, Except.bind, Except.map]
    rcases links names (nesting + 1) layer.operand.level first rest with e | ⟨node, rest, h⟩ <;> rfl

theorem readMore_eq (layer : Layer) (left : Node) (ts : List Token) :
    readMore names nesting layer left ts =
      match ts with
      | [] => .ok (left, [])
      | t :: rest =>
        match operatorAt? layer.level t with
        | none => .ok (left, t :: rest)
        | some op => (do
          let (right, rest) ← readPhrase names nesting layer.operand rest
          let node ← Node.binary op left right
          readMore names nesting layer node rest) := by
  unfold readMore
  rw [links.eq_def]
  rcases ts with _ | ⟨t, rest⟩
  · rfl
  · dsimp only
    rw [layer.operand_level]
    rcases operatorAt? layer.level t with _ | op
    · rfl
    · dsimp only
      rw [readPhrase_operand]
      rcases chain names (nesting + 1) layer.operand.level rest with e | ⟨right, rest, h⟩
      · rfl
      · simp only [plain, bind, Except.bind, Except.map]
        rcases Node.binary op left right with e | node
        · rfl
        · rcases hl : links names (nesting + 1) layer.operand.level node rest with e | ⟨_, _, _⟩
          · simp only [hl]
          · simp only [hl]

theorem readPhrase_factor (ts : List Token) :
    readPhrase names nesting .factor ts =
      match ts with
      | [] => malformed .endOfInput
      | t :: rest =>
        if t.text = "(" then do
          let (node, rest) ← readPhrase names (nesting + 1) .expression rest
          closed node rest
        else if t.isName then
          match rest with
          | [] => do
            let node ← reference names t.text none
            .ok (node, [])
          | next :: rest =>
            if next.text = "(" then do
              let (args, rest) ← readArguments names nesting rest
              let node ← call t.text args
              .ok (node, rest)
            else do
              let node ← reference names t.text (some next)
              .ok (node, next :: rest)
        else if t.isNumber then .ok (.number t.value, rest)
        else malformed (.unexpected t) := by
  simp only [readPhrase, readArguments]
  rw [factor.eq_def]
  rcases ts with _ | ⟨t, rest⟩
  · rfl
  · dsimp only
    split
    · rcases expression names (nesting + 1) rest with e | ⟨node, _ | ⟨t', rest'⟩, h⟩
      · rfl
      · rfl
      · simp only [plain, bind, Except.bind, Except.map, closing, closed]
        by_cases ht : t'.text = ")"
        · simp [ht]
        · simp [ht, malformed]
    · split
      · rcases rest with _ | ⟨next, rest⟩
        · simp only [plain, bind, Except.bind, Except.map]
          rcases reference names t.text none with e | node <;> rfl
        · dsimp only
          split
          · rcases arguments names (nesting + 1) rest with e | ⟨args, rest, h⟩
            · rfl
            · simp only [plain, bind, Except.bind, Except.map]
              rcases call t.text args with e | node <;> rfl
          · simp only [plain, bind, Except.bind, Except.map]
            rcases reference names t.text (some next) with e | node <;> rfl
      · split <;> rfl

theorem readArguments_eq (ts : List Token) :
    readArguments names nesting ts =
      match ts with
      | [] => readSeparated names nesting []
      | t :: rest =>
        if t.text = ")" then .ok ([], rest) else readSeparated names nesting (t :: rest) := by
  unfold readArguments readSeparated
  rw [arguments.eq_def]
  rcases ts with _ | ⟨t, rest⟩
  · dsimp only
    rcases argumentList names (nesting + 1) [] with e | ⟨args, rest, h⟩ <;> rfl
  · dsimp only
    split
    · rfl
    · rcases argumentList names (nesting + 1) (t :: rest) with e | ⟨args, rest, h⟩ <;> rfl

theorem readSeparated_eq (ts : List Token) :
    readSeparated names nesting ts = (do
      let (arg, after) ← readPhrase names (nesting + 1) .expression ts
      match after with
      | [] => malformed (.unclosed none)
      | t :: rest =>
        if t.text = "," then do
          let (args, rest) ← readSeparated names nesting rest
          .ok (arg :: args, rest)
        else closed [arg] (t :: rest)) := by
  simp only [readSeparated, readPhrase]
  rw [argumentList.eq_def]
  rcases expression names (nesting + 1) ts with e | ⟨arg, _ | ⟨t, rest⟩, h⟩
  · rfl
  · rfl
  · simp only [plain, bind, Except.bind, Except.map, closing, closed]
    by_cases hc : t.text = ","
    · rcases argumentList names (nesting + 1) rest with e | ⟨args, rest, h⟩ <;> simp [hc]
    · by_cases ht : t.text = ")"
      · simp [ht]
      · simp [hc, ht, malformed]

/-- Reading a phrase uses up some of the tokens. -/
theorem length_of_readPhrase {p : Phrase} {ts rest : List Token} {node : Node}
    (h : readPhrase names nesting p ts = .ok (node, rest)) : rest.length < ts.length := by
  cases p <;> exact rest_of_plain h

theorem parseTokens_eq (ts : List Token) :
    parseTokens names ts = (do
      let (node, rest) ← readPhrase names 0 .expression ts
      match rest with
      | [] => .ok node.expr
      | t :: _ => malformed (.trailing t)) := by
  simp only [parseTokens, readPhrase]
  rcases expression names 0 ts with error | ⟨node, rest, h⟩ <;> rfl

theorem parseTokens_eq_ok {ts : List Token} {e : Expr} :
    parseTokens names ts = .ok e ↔
      ∃ node, readPhrase names 0 .expression ts = .ok (node, []) ∧ node.expr = e := by
  simp only [parseTokens, readPhrase]
  rcases expression names 0 ts with err | ⟨node, _ | ⟨t, rest⟩, h⟩
  · simp [plain, bind, Except.bind, Except.map]
  · simp [plain, bind, Except.bind, Except.map]
  · simp [plain, bind, Except.bind, Except.map, malformed]

end Parser

end EstimateSheet
