import EstimateSheet.Proofs.Brackets

/-!
# Violations

Two things can be wrong with tokens that form an expression: a name that is read is not defined, and
a call is not of a registered function or not with a number of arguments it takes. `Violation` says
which of these is found at which position, a name where it stands and a call where its closing
parenthesis stands, and with which error.

What stands at a position tells which check is made there: at a name that is read it is the check
of the name (`ReadsAt.violation_iff`), at the end of a call that of the call
(`CallEndsAt.violation_iff`), and elsewhere there is none. So there is one error at a position at
most (`Violation.unique`).
-/

namespace EstimateSheet

/-- The tokens `us` stand in the whole from position `lo` up to `hi`, and then come those of
`rest`. -/
structure Span (whole : List Token) (lo hi : Nat) (us rest : List Token) : Prop where
  drop_eq : whole.drop lo = us ++ rest
  hi_eq : hi = lo + us.length

namespace Span

variable {whole us us' rest rest' : List Token} {lo lo' hi : Nat} {t : Token}

theorem append (h : Span whole lo hi (us ++ us') rest) :
    ∃ m, Span whole lo m us (us' ++ rest) ∧ Span whole m hi us' rest := by
  refine ⟨lo + us.length, ⟨by rw [h.drop_eq, List.append_assoc], rfl⟩, ?_, ?_⟩
  · rw [← List.drop_drop, h.drop_eq, List.append_assoc, List.drop_left]
  · rw [h.hi_eq, List.length_append, Nat.add_assoc]

theorem tail (h : Span whole lo hi (t :: us) rest) : Span whole (lo + 1) hi us rest where
  drop_eq := by rw [← List.drop_drop, h.drop_eq, List.cons_append, List.drop_one, List.tail_cons]
  hi_eq := by rw [h.hi_eq, List.length_cons]; omega

theorem next (h : Span whole lo hi us rest) : whole[hi]? = rest.head? := by
  rw [← List.head?_drop, h.hi_eq, ← List.drop_drop, h.drop_eq, List.drop_left]

theorem head (h : Span whole lo hi (t :: us) rest) : whole[lo]? = some t := by
  rw [← List.head?_drop, h.drop_eq, List.cons_append, List.head?_cons]

theorem take_eq (h : Span whole lo hi us rest) : whole.take hi = whole.take lo ++ us := by
  rw [h.hi_eq, List.take_add, h.drop_eq, List.take_left]

end Span

section

variable (names : Names) (ts : List Token) (i : Nat)

/-- The token at the position is a name, and no parenthesis after it makes it the name of a call. -/
def ReadsAt (name : String) : Prop :=
  ∃ t, ts[i]? = some t ∧ t.isName = true ∧ t.text = name ∧
    ∀ next, ts[i + 1]? = some next → next.text ≠ "("

/-- The token at the position is the closing parenthesis of a call of the function with that many
arguments. -/
def CallEndsAt (function : String) (count : Nat) : Prop :=
  ∃ n lo t call rest args, Span ts lo (i + 1) (t :: call) rest ∧ t.isName = true ∧
    t.text = function ∧ args.length = count ∧ Derives n .factor (t :: call) (.call t.text args)

/-- What is wrong at a position of the tokens. -/
inductive Violation : Nat → FormulaError → Prop where
  | undefinedVariable {i name} : ReadsAt ts i name → names.contains name = false →
      Registry.standard.contains name = false → Violation i (.undefinedVariable name)
  | uncalled {i name} : ReadsAt ts i name → names.contains name = false →
      Registry.standard.contains name = true →
      Violation i (.malformed (.uncalled name ts[i + 1]?))
  | unknownFunction {i function count} : CallEndsAt ts i function count →
      Registry.standard.find? function = none → Violation i (.unknownFunction function)
  | argumentCount {i function count entry} : CallEndsAt ts i function count →
      Registry.standard.find? function = some entry → entry.arity.accepts count = false →
      Violation i (.argumentCount function entry.arity count)

end

namespace Token

variable {t : Token}

theorem not_isName_of_closing (h : t.text = ")") : ¬ t.isName = true :=
  fun hname => (BeginsOperand.text_ne (.inr (.inl hname))).2 h

/-- Neither a name nor a closing parenthesis, so that nothing is checked at the token. -/
def Inert (t : Token) : Prop := ¬ t.isName = true ∧ t.text ≠ ")"

theorem inert_of_text {text : String} (h : t.text = text) (ht : Inert ⟨text⟩) : t.Inert := by
  rwa [eq_of_text_eq h]

theorem inert_opening (h : t.text = "(") : t.Inert :=
  inert_of_text h (by unfold Inert; decide)

theorem inert_comma (h : t.text = ",") : t.Inert :=
  inert_of_text h (by unfold Inert; decide)

theorem inert_negation (h : t.text = "NOT") : t.Inert :=
  inert_of_text h (by unfold Inert; decide)

theorem inert_of_isNumber (h : t.isNumber = true) : t.Inert :=
  ⟨by rw [isName_eq_false_of_isNumber h]; exact Bool.false_ne_true,
    (BeginsOperand.text_ne (.inr (.inr h))).2⟩

theorem inert_of_operator {layer : Layer} {op : Operator} (h : (t.text, op) ∈ layer.operators) :
    t.Inert := by
  refine inert_of_text (Layer.mem_operators_iff.1 h).1.symm ?_
  unfold Inert
  rcases op with op | op | op <;> cases op <;> decide

end Token

variable {names : Names} {ts : List Token} {i : Nat} {name function : String} {count : Nat}
  {error : FormulaError}

/-- The names and the numbers of arguments with which formulas can call functions. -/
def checkCall (function : String) (count : Nat) : Parser.Result Unit :=
  match Registry.standard.find? function with
  | none => .error (.unknownFunction function)
  | some entry => Registry.checkArity function entry count

theorem Parser.call_eq (function : String) (args : List Node) :
    call function args = (do
      checkCall function args.length
      Node.call function args) := by
  unfold call checkCall
  rcases Registry.standard.find? function with _ | entry <;> rfl

namespace CallEndsAt

theorem exists_closing (h : CallEndsAt ts i function count) :
    ∃ t, ts[i]? = some t ∧ t.text = ")" := by
  obtain ⟨n, lo, t, call, rest, args, hspan, ht, rfl, rfl, hd⟩ := h
  obtain ⟨opening, inner, closing, rfl, -, hc, -, -⟩ := hd.call_inv ht
  obtain ⟨m, -, hclosing⟩ := hspan.tail.tail.append
  obtain rfl : i = m := by
    have := hclosing.hi_eq
    rw [List.length_singleton] at this
    omega
  exact ⟨closing, hclosing.head, hc⟩

theorem text_eq {t : Token} (h : CallEndsAt ts i function count) (ht : ts[i]? = some t) :
    t.text = ")" := by
  obtain ⟨t', ht', hc⟩ := h.exists_closing
  rw [ht, Option.some.injEq] at ht'
  rw [ht', hc]

theorem unique {function' : String} {count' : Nat} (h : CallEndsAt ts i function count)
    (h' : CallEndsAt ts i function' count') : function = function' ∧ count = count' := by
  obtain ⟨n, lo, t, call, rest, args, hspan, ht, rfl, rfl, hd⟩ := h
  obtain ⟨n', lo', t', call', rest', args', hspan', ht', rfl, rfl, hd'⟩ := h'
  obtain ⟨rfl, hlen⟩ := hd.call_unique hd' ht ht' (hspan.take_eq.symm.trans hspan'.take_eq)
  exact ⟨rfl, hlen⟩

end CallEndsAt

namespace ReadsAt

theorem token {t : Token} (h : ReadsAt ts i name) (ht : ts[i]? = some t) :
    t.isName = true ∧ t.text = name := by
  obtain ⟨t', ht', hname, htext, -⟩ := h
  rw [ht, Option.some.injEq] at ht'
  rw [ht']
  exact ⟨hname, htext⟩

theorem unique {name' : String} (h : ReadsAt ts i name) (h' : ReadsAt ts i name') :
    name = name' := by
  obtain ⟨t, ht, -, rfl, -⟩ := h
  exact (h'.token ht).2

theorem not_callEndsAt (h : ReadsAt ts i name) : ¬ CallEndsAt ts i function count := by
  intro h'
  obtain ⟨t, ht, hclosing⟩ := h'.exists_closing
  exact Token.not_isName_of_closing hclosing (h.token ht).1

/-- At a name the violations are the errors of reading it. -/
theorem violation_iff (h : ReadsAt ts i name) :
    Violation names ts i error ↔ Parser.reference names name ts[i + 1]? = .error error := by
  unfold Parser.reference
  constructor
  · rintro (⟨h', hd, hr⟩ | ⟨h', hd, hr⟩ | ⟨h', -⟩ | ⟨h', -, -⟩)
    · obtain rfl := h.unique h'
      simp [hd, hr]
    · obtain rfl := h.unique h'
      simp [hd, hr, Parser.malformed]
    · exact absurd h' h.not_callEndsAt
    · exact absurd h' h.not_callEndsAt
  · intro he
    split_ifs at he with hd hr
    · cases he
      exact .uncalled h (Bool.eq_false_iff.2 hd) hr
    · cases he
      exact .undefinedVariable h (Bool.eq_false_iff.2 hd) (Bool.eq_false_iff.2 hr)

end ReadsAt

/-- At the end of a call the violations are the errors of checking it. -/
theorem CallEndsAt.violation_iff (h : CallEndsAt ts i function count) :
    Violation names ts i error ↔ checkCall function count = .error error := by
  unfold checkCall
  constructor
  · rintro (⟨h', -, -⟩ | ⟨h', -, -⟩ | ⟨h', hf⟩ | ⟨h', hf, ha⟩)
    · exact absurd h h'.not_callEndsAt
    · exact absurd h h'.not_callEndsAt
    · obtain ⟨rfl, rfl⟩ := h.unique h'
      simp [hf]
    · obtain ⟨rfl, rfl⟩ := h.unique h'
      simp [hf, Registry.checkArity, ha]
  · intro he
    rcases hf : Registry.standard.find? function with _ | entry
    · simp only [hf, Except.error.injEq] at he
      rw [← he]
      exact .unknownFunction h hf
    · simp only [hf, Registry.checkArity] at he
      split_ifs at he with ha
      cases he
      exact .argumentCount h hf (Bool.eq_false_iff.2 ha)

namespace Violation

/-- There are violations at names that are read and at the ends of calls only. -/
theorem site (h : Violation names ts i error) :
    (∃ name, ReadsAt ts i name) ∨ ∃ function count, CallEndsAt ts i function count := by
  rcases h with ⟨h, -, -⟩ | ⟨h, -, -⟩ | ⟨h, -⟩ | ⟨h, -, -⟩
  · exact .inl ⟨_, h⟩
  · exact .inl ⟨_, h⟩
  · exact .inr ⟨_, _, h⟩
  · exact .inr ⟨_, _, h⟩

/-- There is one error at a position at most. -/
theorem unique {error' : FormulaError} (h : Violation names ts i error)
    (h' : Violation names ts i error') : error = error' := by
  rcases h.site with ⟨name, hs⟩ | ⟨function, count, hs⟩
  · exact Except.error.inj ((hs.violation_iff.1 h).symm.trans (hs.violation_iff.1 h'))
  · exact Except.error.inj ((hs.violation_iff.1 h).symm.trans (hs.violation_iff.1 h'))

theorem lt_length (h : Violation names ts i error) : i < ts.length := by
  rcases h.site with ⟨name, t, ht, -⟩ | ⟨function, count, hs⟩
  · exact (List.getElem?_eq_some_iff.1 ht).1
  · obtain ⟨t, ht, -⟩ := hs.exists_closing
    exact (List.getElem?_eq_some_iff.1 ht).1

end Violation

section Quiet

variable {us rest : List Token} {lo : Nat} {t : Token}

/-- There is no violation at a token that is neither a name nor a closing parenthesis. -/
theorem not_violation_of_inert (h : ts[i]? = some t) (ht : t.Inert) :
    ¬ Violation names ts i error := by
  intro hv
  rcases hv.site with ⟨name, hs⟩ | ⟨function, count, hs⟩
  · exact ht.1 (hs.token h).1
  · exact ht.2 (hs.text_eq h)

/-- There is none at the name of a call. -/
theorem not_violation_of_called {next : Token} (h : ts[i]? = some t) (hname : t.isName = true)
    (hnext : ts[i + 1]? = some next) (ho : next.text = "(") : ¬ Violation names ts i error := by
  intro hv
  rcases hv.site with ⟨name, -, -, -, -, hread⟩ | ⟨function, count, hs⟩
  · exact hread next hnext ho
  · exact Token.not_isName_of_closing (hs.text_eq h) hname

/-- No name stands directly before the position. -/
def Opens (ts : List Token) (lo : Nat) : Prop := ∀ t ∈ (ts.take lo).getLast?, ¬ t.isName = true

theorem opens_zero : Opens ts 0 := nofun

theorem opens_succ (h : ts[i]? = some t) (ht : t.Inert) : Opens ts (i + 1) := by
  intro t' ht'
  rw [List.take_add_one, h, Option.toList_some, List.getLast?_concat] at ht'
  cases ht'
  exact ht.1

/-- There is none at the closing parenthesis of a group, because no call ends there. -/
theorem not_violation_of_group (hb : Bracketed us) (h : Span ts lo (i + 1) us rest)
    (ho : Opens ts lo) (ht : ts[i]? = some t) (hclosing : t.text = ")") :
    ¬ Violation names ts i error := by
  intro hv
  rcases hv.site with ⟨name, hs⟩ | ⟨function, count, hs⟩
  · exact Token.not_isName_of_closing hclosing (hs.token ht).1
  · obtain ⟨n, lo', f, call, rest', args, hspan, hf, rfl, rfl, hd⟩ := hs
    obtain ⟨opening, inner, closing, rfl, ho', hc', hb', -⟩ := hd.call_inv hf
    have heq := h.take_eq.symm.trans hspan.take_eq
    rw [List.append_cons] at heq
    obtain ⟨hbefore, -⟩ := hb.unique (hb'.bracketed ho' hc') heq
    exact ho f (by rw [hbefore, List.getLast?_concat]; rfl) hf

end Quiet

end EstimateSheet
