import EstimateSheet.Formula.Parser
import Mathlib.Tactic.SplitIfs

/-!
# What reading demands of a tree

While a formula is read its names, its calls and the height of its tree are checked. `Expr.toNode`
is these checks on the tree alone, in the order in which reading makes them. A tree passes if it
reads defined names only, calls registered functions with numbers of arguments they take, and is at
most `maxDepth` high (`Expr.toNode_eq_ok`).
-/

namespace EstimateSheet

namespace Registry

/-- A function is registered under the name and takes that many arguments. -/
def Accepts (call : String × Nat) : Prop :=
  ∃ entry, standard.find? call.1 = some entry ∧ entry.arity.accepts call.2 = true

theorem checkArity_eq_ok {name : String} {entry : RegistryEntry} {count : Nat} {u : Unit} :
    checkArity name entry count = .ok u ↔ entry.arity.accepts count = true := by
  unfold checkArity
  split_ifs with h
  · simp [h]
  · simp [h]

end Registry

namespace Expr

mutual

/-- The calls of an expression, each as a name and a number of arguments, in the order in which they
end. -/
def calls : Expr → List (String × Nat)
  | number _ => []
  | reference _ => []
  | binary _ left right => left.calls ++ right.calls
  | not operand => operand.calls
  | call function args => callsAll args ++ [(function, args.length)]

/-- The calls of some expressions. -/
def callsAll : List Expr → List (String × Nat)
  | [] => []
  | e :: es => e.calls ++ callsAll es

end

mutual

/-- The node that reading makes of an expression, or the first thing it refuses in it. Operands come
before their operator and arguments before their call. -/
def toNode (names : Names) : Expr → Parser.Result Parser.Node
  | number x => .ok (.number x)
  | reference name => Parser.reference names name none
  | binary op left right => do
    let left ← left.toNode names
    let right ← right.toNode names
    Parser.Node.binary op left right
  | not operand => do
    let operand ← operand.toNode names
    operand.not
  | call function args => do
    let args ← toNodes names args
    Parser.call function args

/-- The nodes of some expressions. -/
def toNodes (names : Names) : List Expr → Parser.Result (List Parser.Node)
  | [] => .ok []
  | e :: es => do
    let node ← e.toNode names
    let nodes ← toNodes names es
    .ok (node :: nodes)

end

end Expr

namespace Parser

theorem bind_eq_ok {α β : Type} {x : Result α} {f : α → Result β} {b : β} :
    x >>= f = .ok b ↔ ∃ a, x = .ok a ∧ f a = .ok b := by
  rcases x with e | a
  · simp [bind, Except.bind]
  · simp [bind, Except.bind]

namespace Node

/-- The node of an expression. -/
def ofExpr (e : Expr) : Node := ⟨e, e.height, rfl⟩

theorem eq_ofExpr (node : Node) : node = ofExpr node.expr := by
  obtain ⟨e, height, h⟩ := node
  simp [ofExpr, h]

theorem checked_eq_ok {node result : Node} :
    node.checked = .ok result ↔ result = ofExpr node.expr ∧ node.expr.height ≤ maxDepth := by
  rw [← node.eq_ofExpr, ← node.height_eq]
  unfold checked
  split_ifs with h
  · simp only [malformed, reduceCtorEq, false_iff]
    omega
  · simp only [Except.ok.injEq]
    exact ⟨fun h' => ⟨h'.symm, by omega⟩, fun h' => h'.1.symm⟩

theorem not_eq_ok {operand result : Node} :
    operand.not = .ok result ↔
      result = ofExpr (.not operand.expr) ∧ (Expr.not operand.expr).height ≤ maxDepth :=
  checked_eq_ok

theorem binary_eq_ok {op : Operator} {left right result : Node} :
    binary op left right = .ok result ↔ result = ofExpr (.binary op left.expr right.expr) ∧
      (Expr.binary op left.expr right.expr).height ≤ maxDepth :=
  checked_eq_ok

theorem map_expr_ofExpr (es : List Expr) : (es.map ofExpr).map (·.expr) = es := by
  rw [List.map_map, show (·.expr) ∘ ofExpr = id from rfl, List.map_id]

end Node

theorem reference_eq_ok {names : Names} {name : String} {next : Option Token} {result : Node} :
    reference names name next = .ok result ↔
      result = .ofExpr (.reference name) ∧ names.contains name = true := by
  unfold reference
  split_ifs with h1 h2
  · simp only [Except.ok.injEq, h1, and_true]
    exact eq_comm
  · simp [malformed, h1]
  · simp [h1]

theorem call_eq_ok {function : String} {args : List Node} {result : Node} :
    call function args = .ok result ↔
      result = .ofExpr (.call function (args.map (·.expr))) ∧
        Registry.Accepts (function, args.length) ∧
        (Expr.call function (args.map (·.expr))).height ≤ maxDepth := by
  unfold call Registry.Accepts
  rcases Registry.standard.find? function with _ | entry
  · simp
  · simp only [bind_eq_ok, Registry.checkArity_eq_ok, Node.call, Node.checked_eq_ok]
    constructor
    · rintro ⟨_, ha, hr, hh⟩
      exact ⟨hr, ⟨entry, rfl, ha⟩, hh⟩
    · rintro ⟨hr, ⟨_, he, ha⟩, hh⟩
      cases he
      exact ⟨(), ha, hr, hh⟩

variable {names : Names}

/-- A node whose tree passes the checks. -/
def Node.Admitted (names : Names) (node : Node) : Prop := node.expr.toNode names = .ok node

namespace Node.Admitted

theorem number (x : Number) : Admitted names (.number x) := rfl

theorem reference {name : String} {next : Option Token} {node : Node}
    (h : Parser.reference names name next = .ok node) : Admitted names node := by
  obtain ⟨rfl, hd⟩ := reference_eq_ok.1 h
  exact reference_eq_ok.2 ⟨rfl, hd⟩

theorem not {operand node : Node} (ho : Admitted names operand) (h : operand.not = .ok node) :
    Admitted names node := by
  obtain ⟨rfl, -⟩ := not_eq_ok.1 h
  exact bind_eq_ok.2 ⟨operand, ho, h⟩

theorem binary {op : Operator} {left right node : Node} (hl : Admitted names left)
    (hr : Admitted names right) (h : Node.binary op left right = .ok node) :
    Admitted names node := by
  obtain ⟨rfl, -⟩ := binary_eq_ok.1 h
  exact bind_eq_ok.2 ⟨left, hl, bind_eq_ok.2 ⟨right, hr, h⟩⟩

theorem all : ∀ {nodes : List Node}, (∀ node ∈ nodes, Admitted names node) →
    Expr.toNodes names (nodes.map (·.expr)) = .ok nodes
  | [], _ => rfl
  | node :: nodes, h => by
    have hs := all fun n hn => h n (List.mem_cons_of_mem node hn)
    exact bind_eq_ok.2 ⟨node, h node List.mem_cons_self, bind_eq_ok.2 ⟨nodes, hs, rfl⟩⟩

theorem call {function : String} {args : List Node} {node : Node}
    (ha : ∀ arg ∈ args, Admitted names arg) (h : Parser.call function args = .ok node) :
    Admitted names node := by
  obtain ⟨rfl, -⟩ := call_eq_ok.1 h
  exact bind_eq_ok.2 ⟨args, all ha, h⟩

end Node.Admitted

end Parser

namespace Expr

open EstimateSheet.Parser

variable (names : Names)

/-- An expression that reading does not refuse. -/
structure Admissible (e : Expr) : Prop where
  defined : ∀ name ∈ e.occurrences, names.contains name = true
  callable : ∀ c ∈ e.calls, Registry.Accepts c
  height_le : e.height ≤ maxDepth

/-- Expressions that reading does not refuse. -/
structure AllAdmissible (es : List Expr) : Prop where
  defined : ∀ name ∈ occurrencesAll es, names.contains name = true
  callable : ∀ c ∈ callsAll es, Registry.Accepts c
  height_le : heights es ≤ maxDepth

variable {names}

theorem admissible_binary {op : Operator} {left right : Expr} :
    Admissible names (.binary op left right) ↔ Admissible names left ∧ Admissible names right ∧
      (binary op left right).height ≤ maxDepth := by
  constructor
  · rintro ⟨hd, hc, hh⟩
    simp only [occurrences, calls, List.mem_append] at hd hc
    simp only [height] at hh
    exact ⟨⟨fun x h => hd x (.inl h), fun c h => hc c (.inl h), by omega⟩,
      ⟨fun x h => hd x (.inr h), fun c h => hc c (.inr h), by omega⟩, hh⟩
  · rintro ⟨⟨hd, hc, -⟩, ⟨hd', hc', -⟩, hh⟩
    refine ⟨?_, ?_, hh⟩
    · simp only [occurrences, List.mem_append]
      exact fun x h => h.elim (hd x) (hd' x)
    · simp only [calls, List.mem_append]
      exact fun c h => h.elim (hc c) (hc' c)

theorem admissible_not {operand : Expr} :
    Admissible names (.not operand) ↔
      Admissible names operand ∧ (not operand).height ≤ maxDepth := by
  constructor
  · rintro ⟨hd, hc, hh⟩
    exact ⟨⟨hd, hc, by simp only [height] at hh; omega⟩, hh⟩
  · rintro ⟨⟨hd, hc, -⟩, hh⟩
    exact ⟨hd, hc, hh⟩

theorem admissible_call {function : String} {args : List Expr} :
    Admissible names (.call function args) ↔ AllAdmissible names args ∧
      Registry.Accepts (function, args.length) ∧ (call function args).height ≤ maxDepth := by
  constructor
  · rintro ⟨hd, hc, hh⟩
    simp only [calls, List.mem_append, List.mem_singleton] at hc
    exact ⟨⟨hd, fun c h => hc c (.inl h), by simp only [height] at hh; omega⟩, hc _ (.inr rfl), hh⟩
  · rintro ⟨⟨hd, hc, -⟩, ha, hh⟩
    refine ⟨hd, ?_, hh⟩
    simp only [calls, List.mem_append, List.mem_singleton]
    rintro c (h | rfl)
    · exact hc c h
    · exact ha

theorem allAdmissible_cons {e : Expr} {es : List Expr} :
    AllAdmissible names (e :: es) ↔ Admissible names e ∧ AllAdmissible names es := by
  constructor
  · rintro ⟨hd, hc, hh⟩
    simp only [occurrencesAll, callsAll, List.mem_append] at hd hc
    simp only [heights] at hh
    exact ⟨⟨fun x h => hd x (.inl h), fun c h => hc c (.inl h), by omega⟩,
      ⟨fun x h => hd x (.inr h), fun c h => hc c (.inr h), by omega⟩⟩
  · rintro ⟨⟨hd, hc, hh⟩, ⟨hd', hc', hh'⟩⟩
    refine ⟨?_, ?_, by simp only [heights]; omega⟩
    · simp only [occurrencesAll, List.mem_append]
      exact fun x h => h.elim (hd x) (hd' x)
    · simp only [callsAll, List.mem_append]
      exact fun c h => h.elim (hc c) (hc' c)

mutual

/-- Reading refuses nothing in an admissible expression, and makes its node. -/
theorem toNode_eq_ok : ∀ (e : Expr) (node : Node),
    e.toNode names = .ok node ↔ node = .ofExpr e ∧ e.Admissible names
  | .number x, node => by
    simp only [toNode, Except.ok.injEq]
    refine ⟨fun h => ⟨?_, ⟨by simp [occurrences], by simp [calls], by simp [height, maxDepth]⟩⟩,
      fun h => ?_⟩
    · rw [← h]
      simp [Node.ofExpr, Node.number, height]
    · rw [h.1]
      simp [Node.ofExpr, Node.number, height]
  | .reference name, node => by
    simp only [toNode, reference_eq_ok]
    refine and_congr_right fun _ => ⟨fun h => ⟨by simpa [occurrences] using h, by simp [calls],
      by simp [height, maxDepth]⟩, fun h => h.defined name (by simp [occurrences])⟩
  | .binary op left right, node => by
    simp only [toNode, bind_eq_ok, toNode_eq_ok left, toNode_eq_ok right, Node.binary_eq_ok,
      admissible_binary]
    constructor
    · rintro ⟨_, ⟨rfl, hl⟩, _, ⟨rfl, hr⟩, h, hh⟩
      exact ⟨h, hl, hr, hh⟩
    · rintro ⟨h, hl, hr, hh⟩
      exact ⟨_, ⟨rfl, hl⟩, _, ⟨rfl, hr⟩, h, hh⟩
  | .not operand, node => by
    simp only [toNode, bind_eq_ok, toNode_eq_ok operand, Node.not_eq_ok, admissible_not]
    constructor
    · rintro ⟨_, ⟨rfl, ho⟩, h, hh⟩
      exact ⟨h, ho, hh⟩
    · rintro ⟨h, ho, hh⟩
      exact ⟨_, ⟨rfl, ho⟩, h, hh⟩
  | .call function args, node => by
    simp only [toNode, bind_eq_ok, toNodes_eq_ok args, call_eq_ok, admissible_call]
    constructor
    · rintro ⟨_, ⟨rfl, has⟩, h⟩
      rw [Node.map_expr_ofExpr, List.length_map] at h
      exact ⟨h.1, has, h.2⟩
    · rintro ⟨h, has, h'⟩
      refine ⟨_, ⟨rfl, has⟩, ?_⟩
      rw [Node.map_expr_ofExpr, List.length_map]
      exact ⟨h, h'⟩

theorem toNodes_eq_ok : ∀ (es : List Expr) (nodes : List Node),
    toNodes names es = .ok nodes ↔ nodes = es.map .ofExpr ∧ AllAdmissible names es
  | [], nodes => by
    simp only [toNodes, Except.ok.injEq, List.map_nil]
    exact ⟨fun h => ⟨h.symm, ⟨by simp [occurrencesAll], by simp [callsAll], by simp [heights]⟩⟩,
      fun h => h.1.symm⟩
  | e :: es, nodes => by
    simp only [toNodes, bind_eq_ok, toNode_eq_ok e, toNodes_eq_ok es, allAdmissible_cons,
      List.map_cons, Except.ok.injEq]
    constructor
    · rintro ⟨_, ⟨rfl, he⟩, _, ⟨rfl, hes⟩, rfl⟩
      exact ⟨rfl, he, hes⟩
    · rintro ⟨rfl, he, hes⟩
      exact ⟨_, ⟨rfl, he⟩, _, ⟨rfl, hes⟩, rfl⟩

end

end Expr

end EstimateSheet
