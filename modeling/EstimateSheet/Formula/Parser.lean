import EstimateSheet.Formula.Expr
import EstimateSheet.Formula.Lexeme
import EstimateSheet.Formula.Names
import EstimateSheet.Formula.Registry

/-!
# Reading formulas

An expression is a chain of operators of the loosest level, perhaps after one `NOT`. A chain of a
level has chains of the next tighter level as its operands and associates to the left; at the
tightest level the operands are factors, which are numerals, names, calls and expressions in
parentheses. Names and calls are checked as soon as they are read, so the first violation from left
to right is the one reported. A tree higher than `maxDepth`, or expressions nested deeper than
that in parentheses and argument lists, are refused.

Every function here consumes tokens from the front and gives those that are left, which are fewer.
-/

namespace EstimateSheet

namespace Parser

/-- The greatest height of a tree and the deepest nesting of expressions. -/
def maxDepth : Nat := 256

/-- The result of reading tokens. -/
abbrev Result (α : Type) := Except FormulaError α

/-- Tokens left after reading some of `ts`. -/
abbrev Shorter (ts : List Token) := { rest : List Token // rest.length < ts.length }

/-- Tokens left after reading some or none of `ts`. -/
abbrev NotLonger (ts : List Token) := { rest : List Token // rest.length ≤ ts.length }

/-- Reading fails because the tokens do not form an expression. -/
def malformed {α : Type} (cause : Malformation) : Result α := .error (.malformed cause)

/-- An expression with its height. -/
structure Node where
  expr : Expr
  height : Nat
  height_eq : height = expr.height

namespace Node

/-- A node that is not too high. -/
def checked (node : Node) : Result Node :=
  if maxDepth < node.height then malformed .tooDeep else .ok node

def number (x : Number) : Node := ⟨.number x, 1, by simp [Expr.height]⟩

def reference (name : String) : Node := ⟨.reference name, 1, by simp [Expr.height]⟩

def not (node : Node) : Result Node :=
  checked ⟨.not node.expr, node.height + 1, by simp [Expr.height, node.height_eq]⟩

/-- The node of an operator and its operands. -/
def binary (op : Operator) (left right : Node) : Result Node :=
  checked ⟨.binary op left.expr right.expr, max left.height right.height + 1,
    by simp [Expr.height, left.height_eq, right.height_eq]⟩

/-- The greatest height of some nodes. -/
def heights : List Node → Nat
  | [] => 0
  | node :: nodes => max node.height (heights nodes)

/-- The heights kept in nodes are those of their expressions. -/
theorem heights_eq (nodes : List Node) : heights nodes = Expr.heights (nodes.map (·.expr)) := by
  induction nodes with
  | nil => simp [heights, Expr.heights]
  | cons node nodes ih => simp [heights, Expr.heights, ih, node.height_eq]

def call (function : String) (args : List Node) : Result Node :=
  checked ⟨.call function (args.map (·.expr)), heights args + 1,
    by simp [Expr.height, heights_eq]⟩

end Node

/-- The operator of the given level at a token, if it is one. -/
def operatorAt? (level : Nat) (t : Token) : Option Operator :=
  (Operator.ofSign? t.text).filter (·.level == level)

def closing (ts : List Token) : Result (Shorter ts) :=
  match ts with
  | [] => malformed (.unclosed none)
  | t :: rest =>
    if t.text = ")" then .ok ⟨rest, by simp⟩ else malformed (.unclosed (some t))

/-- A reference to a name, `next` being the token after it. -/
def reference (names : Names) (name : String) (next : Option Token) : Result Node :=
  if names.contains name then .ok (.reference name)
  else if Registry.standard.contains name then malformed (.uncalled name next)
  else .error (.undefinedVariable name)

/-- A call of a registered function with a number of arguments that it takes. -/
def call (function : String) (args : List Node) : Result Node :=
  match Registry.standard.find? function with
  | none => .error (.unknownFunction function)
  | some entry => do
    Registry.checkArity function entry args.length
    Node.call function args

mutual

/-- An expression, inside `nesting` others. -/
def expression (names : Names) (nesting : Nat) (ts : List Token) : Result (Node × Shorter ts) :=
  if maxDepth ≤ nesting then malformed .tooDeep
  else
    match ts with
    | [] => chain names (nesting + 1) Operator.topLevel []
    | t :: rest =>
      if t.text = "NOT" then do
        let (operand, ⟨rest, _⟩) ← chain names (nesting + 1) Operator.topLevel rest
        let node ← operand.not
        .ok (node, ⟨rest, by simp only [List.length_cons]; omega⟩)
      else chain names (nesting + 1) Operator.topLevel (t :: rest)
termination_by (ts.length, Operator.topLevel + 2)

/-- A chain of operators of the given level. -/
def chain (names : Names) (nesting level : Nat) (ts : List Token) :
    Result (Node × Shorter ts) :=
  match level with
  | 0 => factor names nesting ts
  | level + 1 => do
    let (first, ⟨rest, _⟩) ← chain names nesting level ts
    let (node, ⟨rest, _⟩) ← links names nesting level first rest
    .ok (node, ⟨rest, by omega⟩)
termination_by (ts.length, level + 1)

/-- The operators of level `level + 1` after an operand, with the operands that follow them. -/
def links (names : Names) (nesting level : Nat) (left : Node) (ts : List Token) :
    Result (Node × NotLonger ts) :=
  match ts with
  | [] => .ok (left, ⟨[], by simp⟩)
  | t :: rest =>
    match operatorAt? (level + 1) t with
    | none => .ok (left, ⟨t :: rest, by simp⟩)
    | some op => do
      let (right, ⟨rest, _⟩) ← chain names nesting level rest
      let node ← Node.binary op left right
      let (node, ⟨rest, _⟩) ← links names nesting level node rest
      .ok (node, ⟨rest, by simp only [List.length_cons]; omega⟩)
termination_by (ts.length, 0)

/-- A numeral, a name, a call or an expression in parentheses. -/
def factor (names : Names) (nesting : Nat) (ts : List Token) : Result (Node × Shorter ts) :=
  match ts with
  | [] => malformed .endOfInput
  | t :: rest =>
    if t.text = "(" then do
      let (node, ⟨rest, _⟩) ← expression names nesting rest
      let ⟨rest, _⟩ ← closing rest
      .ok (node, ⟨rest, by simp only [List.length_cons]; omega⟩)
    else if t.isName then
      match rest with
      | [] => do
        let node ← reference names t.text none
        .ok (node, ⟨[], by simp⟩)
      | next :: rest =>
        if next.text = "(" then do
          let (args, ⟨rest, _⟩) ← arguments names nesting rest
          let node ← call t.text args
          .ok (node, ⟨rest, by simp only [List.length_cons]; omega⟩)
        else do
          let node ← reference names t.text (some next)
          .ok (node, ⟨next :: rest, by simp⟩)
    else if t.isNumber then .ok (.number t.value, ⟨rest, by simp⟩)
    else malformed (.unexpected t)
termination_by (ts.length, 0)

/-- The arguments of a call and the closing parenthesis after them. -/
def arguments (names : Names) (nesting : Nat) (ts : List Token) :
    Result (List Node × NotLonger ts) :=
  match ts with
  | [] => do
    let (args, ⟨rest, _⟩) ← argumentList names nesting []
    .ok (args, ⟨rest, by omega⟩)
  | t :: rest =>
    if t.text = ")" then .ok ([], ⟨rest, by simp⟩)
    else do
      let (args, ⟨rest', _⟩) ← argumentList names nesting (t :: rest)
      .ok (args, ⟨rest', by omega⟩)
termination_by (ts.length, Operator.topLevel + 4)

/-- One argument or more, with commas between them, and the closing parenthesis. -/
def argumentList (names : Names) (nesting : Nat) (ts : List Token) :
    Result (List Node × Shorter ts) := do
  let (arg, ⟨after, shorter⟩) ← expression names nesting ts
  match after, shorter with
  | [], _ => malformed (.unclosed none)
  | t :: rest, shorter =>
    have : rest.length < ts.length := Nat.lt_of_succ_lt shorter
    if t.text = "," then do
      let (args, ⟨rest, _⟩) ← argumentList names nesting rest
      .ok (arg :: args, ⟨rest, by omega⟩)
    else do
      let ⟨rest, _⟩ ← closing (t :: rest)
      .ok ([arg], ⟨rest, by omega⟩)
termination_by (ts.length, Operator.topLevel + 3)

end

/-- The expression that a whole list of tokens forms. -/
def parseTokens (names : Names) (ts : List Token) : Result Expr := do
  let (node, ⟨rest, _⟩) ← expression names 0 ts
  match rest with
  | [] => .ok node.expr
  | t :: _ => malformed (.trailing t)

/-- The expression that a formula text forms. -/
def parse (names : Names) (formula : String) : Result Expr := do
  parseTokens names (← Token.scan formula)

end Parser

end EstimateSheet
