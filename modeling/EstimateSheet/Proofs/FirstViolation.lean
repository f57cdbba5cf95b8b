import EstimateSheet.Proofs.ReadingComplete
import EstimateSheet.Proofs.Violations

/-!
# The error that reading reports

Reading tokens that form a phrase comes to the node of its tree, or to the error of the first
violation among these tokens (`settles_readPhrase`). What is read in succession reports the error of
the part that comes first (`Settles.bind`), so only the positions at which a check is made count: a
name is checked where it stands and a call where it ends. The induction is on the derivation and
goes along with reading.
-/

namespace EstimateSheet

namespace Parser

/-- What reading the tokens at the positions from `lo` up to `hi` comes to: `a` if there is no
violation at these, else the error of the first one. -/
inductive Settles {α : Type} (names : Names) (ts : List Token) (lo hi : Nat) :
    Result α → α → Prop where
  | passed {a} : lo ≤ hi → (∀ i error, lo ≤ i → i < hi → ¬ Violation names ts i error) →
      Settles names ts lo hi (.ok a) a
  | refused {a i error} : lo ≤ i → i < hi → Violation names ts i error →
      (∀ j error', lo ≤ j → j < i → ¬ Violation names ts j error') →
      Settles names ts lo hi (.error error) a

namespace Settles

variable {α β : Type} {names : Names} {ts : List Token} {lo m hi : Nat} {x : Result α} {a : α}
  {b : β} {f : α → Result β}

theorem le (h : Settles names ts lo hi x a) : lo ≤ hi := by
  rcases h with ⟨hle, -⟩ | ⟨hlo, hhi, -, -⟩
  · exact hle
  · omega

theorem bind (h : Settles names ts lo m x a) (hf : Settles names ts m hi (f a) b) :
    Settles names ts lo hi (x >>= f) b := by
  have hlo := h.le
  have hhi := hf.le
  rcases h with ⟨-, hquiet⟩ | ⟨hle, hlt, hv, hfirst⟩
  · change Settles names ts lo hi (f a) b
    generalize f a = y at hf
    -- nothing before `m` is refused, so what comes from there on is what is reported
    rcases hf with ⟨-, hquiet'⟩ | ⟨hle, hlt, hv, hfirst⟩
    · refine .passed (by omega) fun i error hle hlt => ?_
      rcases Nat.lt_or_ge i m with him | him
      · exact hquiet i error hle him
      · exact hquiet' i error him hlt
    · refine .refused (by omega) hlt hv fun j error' hle' hlt' => ?_
      rcases Nat.lt_or_ge j m with hjm | hjm
      · exact hquiet j error' hle' hjm
      · exact hfirst j error' hjm hlt'
  · exact .refused hle (by omega) hv hfirst

theorem done : Settles names ts lo lo (.ok a) a :=
  .passed (Nat.le_refl lo) fun i error hle hlt => by omega

theorem bind_ok (h : Settles names ts lo hi x a) (hf : f a = .ok b) :
    Settles names ts lo hi (x >>= f) b :=
  h.bind (by rw [hf]; exact done)

theorem quiet (h : ∀ error, ¬ Violation names ts lo error) :
    Settles names ts lo (lo + 1) (.ok a) a := by
  refine .passed (Nat.le_succ lo) fun i error hle hlt => ?_
  obtain rfl : i = lo := by omega
  exact h error

theorem skip (h : ∀ error, ¬ Violation names ts lo error) (hx : Settles names ts (lo + 1) hi x a) :
    Settles names ts lo hi x a :=
  (quiet (a := ()) h).bind (f := fun _ => x) hx

theorem skip_inert {t : Token} {us rest : List Token} (h : Span ts lo hi (t :: us) rest)
    (ht : t.Inert) (hx : Settles names ts (lo + 1) hi x a) : Settles names ts lo hi x a :=
  skip (fun _ => not_violation_of_inert h.head ht) hx

/-- A check that is made at a position. -/
theorem check (h : ∀ error, Violation names ts lo error ↔ x = .error error)
    (hok : ∀ b, x = .ok b → b = a) : Settles names ts lo (lo + 1) x a := by
  rcases x with error | b
  · exact .refused (Nat.le_refl lo) (Nat.lt_succ_self lo) ((h error).2 rfl) fun j _ hle' hlt' => by
      omega
  · obtain rfl := hok b rfl
    exact quiet fun error hv => nomatch (h error).1 hv

end Settles

theorem height_le_chained : ∀ (more : List (Operator × Expr)) (first : Expr),
    first.height ≤ (first.chained more).height
  | [], first => Nat.le_refl _
  | (op, e) :: more, first => by
    have hbinary := height_le_chained more (.binary op first e)
    simp only [Expr.height] at hbinary
    exact Nat.le_trans (by omega) hbinary

variable {names : Names} {ts : List Token} {nesting lo hi : Nat} {rest : List Token}

/-- A name is checked where it stands. -/
theorem settles_reference {t : Token} (h : Span ts lo hi [t] rest) (ht : t.isName = true)
    (hs : Stops 0 rest) : Settles names ts lo hi
      (readPhrase names nesting .factor (t :: rest)) (.ofExpr (.reference t.text), rest) := by
  obtain rfl : hi = lo + 1 := h.hi_eq
  have hreads : ReadsAt ts lo t.text := by
    refine ⟨t, h.head, ht, rfl, fun next hnext => ?_⟩
    rw [h.next] at hnext
    exact (hs next hnext).1
  rw [readFactor_reference names nesting ht hs, ← h.next]
  refine Settles.bind_ok (.check (fun error => hreads.violation_iff) fun node hnode => ?_) rfl
  exact (reference_eq_ok.1 hnode).1

/-- A call is checked where it ends. -/
theorem settles_call {function : String} {args : List Expr}
    (h : CallEndsAt ts lo function args.length) (hh : (Expr.call function args).height ≤ maxDepth) :
    Settles names ts lo (lo + 1) (call function (args.map .ofExpr))
      (.ofExpr (.call function args)) := by
  rw [call_eq, List.length_map]
  refine Settles.bind_ok (a := ()) (.check (fun error => h.violation_iff) fun _ _ => rfl) ?_
  rw [Node.call, Node.checked_eq_ok]
  simp only [Node.map_expr_ofExpr, true_and]
  exact hh

/-- The name of a call and the parenthesis after it are not checked. -/
theorem Settles.skip_call {α : Type} {x : Result α} {a : α} {t opening : Token} {us : List Token}
    (h : Span ts lo hi (t :: opening :: us) rest) (ht : t.isName = true) (ho : opening.text = "(")
    (hx : Settles names ts (lo + 2) hi x a) : Settles names ts lo hi x a :=
  skip (fun _ => not_violation_of_called h.head ht h.tail.head ho)
    (skip_inert h.tail (Token.inert_opening ho) hx)

mutual

/-- Reading a phrase of the grammar reports the first violation in it. -/
theorem settles_readPhrase {n : Nat} : ∀ {p : Phrase} {us : List Token} {e : Expr},
    Derives n p us e → ∀ (nesting lo hi : Nat) (rest : List Token), Span ts lo hi us rest →
      Opens ts lo → nesting + n < maxDepth → Stops p.level rest → e.height ≤ maxDepth →
      Settles names ts lo hi (readPhrase names nesting p (us ++ rest)) (.ofExpr e, rest)
  | _, _, _, .negation (e := e) ht hd, nesting, lo, hi, rest, hspan, _, hn, hs, hh => by
    have hinert := Token.inert_negation ht
    have hh' : e.height ≤ maxDepth := by
      simp only [Expr.height] at hh
      omega
    rw [readPhrase_expression, if_neg (by omega)]
    simp only [List.cons_append, ht, if_true]
    exact .skip_inert hspan hinert ((settles_readPhrase hd nesting (lo + 1) hi rest hspan.tail
      (opens_succ hspan.head hinert) hn hs hh').bind_ok
        (bind_eq_ok.2 ⟨_, Node.not_eq_ok.2 ⟨rfl, hh⟩, rfl⟩))
  | _, _, _, .plain hd, nesting, lo, hi, rest, hspan, ho, hn, hs, hh => by
    -- a chain never begins with `NOT`, so it is not taken for a negation
    have hchain := settles_readPhrase hd nesting lo hi rest hspan ho hn hs hh
    rw [readPhrase_expression, if_neg (by omega)]
    obtain ⟨t, us, rfl, hb | ⟨hp, -⟩⟩ := hd.begins
    · simp only [List.cons_append, hb.text_ne.1, if_false]
      exact hchain
    · cases hp
  | _, _, _, .chain hd hc, nesting, lo, hi, rest, hspan, ho, hn, hs, hh => by
    obtain ⟨m, hfirst, hmore⟩ := hspan.append
    have hh' := Nat.le_trans (height_le_chained _ _) hh
    rw [readPhrase_chain, List.append_assoc]
    exact (settles_readPhrase hd nesting lo m _ hfirst ho hn (.continues hc hs) hh').bind
      (settles_readMore hc nesting _ m hi rest hmore hn hs hh)
  | _, _, _, .group ho hd hc, nesting, lo, hi, rest, hspan, hopens, hn, hs, hh => by
    have hinert := Token.inert_opening ho
    obtain ⟨m, hinner, hclosing⟩ := hspan.tail.append
    obtain rfl : hi = m + 1 := hclosing.hi_eq
    rw [readPhrase_factor]
    simp only [List.cons_append, List.append_assoc, List.nil_append, ho, if_true]
    refine .skip_inert hspan hinert ((settles_readPhrase hd (nesting + 1) (lo + 1) m _ hinner
      (opens_succ hspan.head hinert) (by omega) (.closing hc) hh).bind ?_)
    simp only [List.cons_append, List.nil_append, closed, hc, if_true]
    exact .quiet fun error => not_violation_of_group (hd.enclosed.toBalanced.bracketed ho hc) hspan
      hopens hclosing.head hc
  | _, _, _, .emptyCall hf ho hc, nesting, lo, hi, rest, hspan, _, hn, hs, hh => by
    obtain rfl : hi = lo + 2 + 1 := hspan.hi_eq
    have hends : CallEndsAt ts (lo + 2) _ 0 :=
      ⟨_, lo, _, _, rest, [], hspan, hf, rfl, rfl, .emptyCall (n := n) hf ho hc⟩
    rw [readPhrase_factor]
    simp only [List.cons_append, List.nil_append, Token.text_ne_of_isName hf, hf, ho, if_true,
      if_false, readArguments_eq, hc]
    exact .skip_call hspan hf ho ((settles_call hends hh).bind_ok rfl)
  | _, _, _, .call hf ho hsep hc, nesting, lo, hi, rest, hspan, _, hn, hs, hh => by
    have hopening := hspan.tail.head
    obtain ⟨m, hargs, hclosing⟩ := hspan.tail.tail.append
    obtain rfl : hi = m + 1 := hclosing.hi_eq
    have hends : CallEndsAt ts m _ _ :=
      ⟨_, lo, _, _, rest, _, hspan, hf, rfl, rfl, .call hf ho hsep hc⟩
    have hh' := hh
    simp only [Expr.height] at hh'
    rw [readPhrase_factor]
    simp only [List.cons_append, List.append_assoc, List.nil_append, Token.text_ne_of_isName hf, hf,
      ho, if_true, if_false, readArguments_of_separated names nesting hsep]
    exact .skip_call hspan hf ho ((settles_readSeparated hsep nesting (lo + 2) m _ rest hargs
      (opens_succ hopening (Token.inert_opening ho)) (by omega) hc (by omega)).bind
        ((settles_call hends hh).bind_ok rfl))
  | _, _, _, .reference ht, nesting, lo, hi, rest, hspan, _, _, hs, _ =>
    settles_reference hspan ht hs
  | _, _, _, .number ht, nesting, lo, hi, rest, hspan, _, _, _, _ => by
    obtain rfl : hi = lo + 1 := hspan.hi_eq
    rw [readPhrase_factor]
    simp only [List.cons_append, List.nil_append, Token.text_ne_of_isNumber ht,
      Token.isName_eq_false_of_isNumber ht, ht, if_true, if_false, Bool.false_eq_true]
    exact .quiet fun error => not_violation_of_inert hspan.head (Token.inert_of_isNumber ht)

theorem settles_readMore {n : Nat} {layer : Layer} : ∀ {us : List Token}
    {more : List (Operator × Expr)}, Continues n layer us more →
    ∀ (nesting : Nat) (left : Expr) (lo hi : Nat) (rest : List Token), Span ts lo hi us rest →
      nesting + n < maxDepth → Stops layer.level rest → (left.chained more).height ≤ maxDepth →
      Settles names ts lo hi (readMore names nesting layer (.ofExpr left) (us ++ rest))
        (.ofExpr (left.chained more), rest)
  | _, _, .done, nesting, left, lo, hi, rest, hspan, _, hs, _ => by
    obtain rfl : hi = lo := hspan.hi_eq
    rw [readMore_eq]
    rcases rest with _ | ⟨t, rest⟩
    · exact .done
    · simp only [List.nil_append, hs.operatorAt?_eq_none]
      exact .done
  | _, _, @Continues.more _ _ _ op _ _ e more ht hd hc, nesting, left, lo, hi, rest, hspan, hn, hs,
      hh => by
    have hinert := Token.inert_of_operator ht
    obtain ⟨m, hoperand, hmore⟩ := hspan.tail.append
    have hh' : (Expr.binary op left e).height ≤ maxDepth :=
      Nat.le_trans (height_le_chained more _) hh
    have hright : e.height ≤ maxDepth := by
      simp only [Expr.height] at hh'
      omega
    rw [readMore_eq]
    simp only [List.cons_append, List.append_assoc, operatorAt?_eq_some_iff.2 ht]
    refine .skip_inert hspan hinert ((settles_readPhrase hd nesting (lo + 1) m _ hoperand
      (opens_succ hspan.head hinert) hn (.continues hc hs) hright).bind ?_)
    have hjoin : Node.binary op (.ofExpr left) (.ofExpr e) = .ok (.ofExpr (.binary op left e)) :=
      Node.binary_eq_ok.2 ⟨rfl, hh'⟩
    simp only [hjoin]
    exact settles_readMore hc nesting (.binary op left e) m hi rest hmore hn hs hh

theorem settles_readSeparated {n : Nat} : ∀ {us : List Token} {es : List Expr}, Separated n us es →
    ∀ (nesting lo hi : Nat) (closing : Token) (rest : List Token),
      Span ts lo hi us (closing :: rest) → Opens ts lo → nesting + 1 + n < maxDepth →
      closing.text = ")" → Expr.heights es ≤ maxDepth →
      Settles names ts lo hi (readSeparated names nesting (us ++ closing :: rest))
        (es.map .ofExpr, rest)
  | _, _, .one hd, nesting, lo, hi, closing, rest, hspan, ho, hn, hc, hh => by
    simp only [Expr.heights] at hh
    rw [readSeparated_eq]
    refine (settles_readPhrase hd (nesting + 1) lo hi _ hspan ho hn (.closing hc)
      (by omega)).bind_ok ?_
    simp only [hc, closed, if_true]
    rfl
  | _, _, .more hd hcomma hsep, nesting, lo, hi, closing, rest, hspan, ho, hn, hc, hh => by
    have hinert := Token.inert_comma hcomma
    obtain ⟨m, hfirst, hmore⟩ := hspan.append
    simp only [Expr.heights] at hh
    rw [readSeparated_eq, List.append_assoc]
    refine (settles_readPhrase hd (nesting + 1) lo m _ hfirst ho hn (.comma hcomma)
      (by omega)).bind ?_
    simp only [List.cons_append, hcomma, if_true]
    exact .skip_inert hmore hinert ((settles_readSeparated hsep nesting (m + 1) hi closing rest
      hmore.tail (opens_succ hmore.head hinert) hn hc (by omega)).bind_ok rfl)

end

/-- A whole list of tokens is read, or the error of the first violation is reported. -/
theorem settles_parseTokens {e : Expr} (hd : Derives (maxDepth - 1) .expression ts e)
    (hh : e.height ≤ maxDepth) : Settles names ts 0 ts.length (parseTokens names ts) e := by
  have hspan : Span ts 0 ts.length ts [] := ⟨(List.append_nil ts).symm, (Nat.zero_add _).symm⟩
  have hread : Settles names ts 0 ts.length (readPhrase names 0 .expression (ts ++ []))
      (.ofExpr e, []) :=
    settles_readPhrase hd 0 0 ts.length [] hspan opens_zero (by decide) .nil hh
  rw [List.append_nil] at hread
  rw [parseTokens_eq]
  exact hread.bind_ok rfl

/-- Tokens without violations are those in whose tree all names are defined and all calls are of
registered functions with numbers of arguments they take. -/
theorem forall_not_violation_iff {e : Expr} (hd : Derives (maxDepth - 1) .expression ts e)
    (hh : e.height ≤ maxDepth) : (∀ i error, ¬ Violation names ts i error) ↔
      (∀ name ∈ e.occurrences, names.contains name = true) ∧
        ∀ call ∈ e.calls, Registry.Accepts call := by
  have hsettles : Settles names ts 0 ts.length (parseTokens names ts) e := settles_parseTokens hd hh
  constructor
  · intro hnone
    generalize hr : parseTokens names ts = r at hsettles
    rcases hsettles with - | ⟨-, -, hv, -⟩
    · have hadmissible := (parseTokens_sound hr).2
      exact ⟨hadmissible.defined, hadmissible.callable⟩
    · exact absurd hv (hnone _ _)
  · rintro ⟨hdefined, hcallable⟩ i error hv
    rw [parseTokens_complete hd ⟨hdefined, hcallable, hh⟩] at hsettles
    rcases hsettles with ⟨-, hquiet⟩
    exact hquiet i error (Nat.zero_le i) hv.lt_length hv

/-- Of tokens that form an expression within the limits on its height and nesting, reading reports
the first violation from left to right, and it fails in no other case. Tokens that form no
expression are not read as one. -/
theorem parseTokens_violation (names : Names) (ts : List Token) :
    (∀ e, Derives 255 .expression ts e → e.height ≤ 256 →
      ((∃ error, parseTokens names ts = .error error) ↔
        ∃ i error, Violation names ts i error) ∧
      ∀ error, parseTokens names ts = .error error ↔
        ∃ i, Violation names ts i error ∧ ∀ j error', Violation names ts j error' → i ≤ j) ∧
    ((∀ n e, ¬ Derives n .expression ts e) → ∀ e, parseTokens names ts ≠ .ok e) := by
  refine ⟨fun e hd hh => ?_, fun hshape e hparse => hshape _ e (parseTokens_sound hparse).1⟩
  have hsettles : Settles names ts 0 ts.length (parseTokens names ts) e := settles_parseTokens hd hh
  generalize parseTokens names ts = r at hsettles
  rcases hsettles with ⟨-, hquiet⟩ | ⟨-, -, hv, hfirst⟩
  · have hnone : ∀ i error, ¬ Violation names ts i error := fun i error hv =>
      hquiet i error (Nat.zero_le i) hv.lt_length hv
    simp [hnone]
  · have hmin : ∀ j error', Violation names ts j error' → _ ≤ j := fun j error' hv' =>
      Nat.le_of_not_lt fun hj => hfirst j error' (Nat.zero_le j) hj hv'
    refine ⟨⟨fun _ => ⟨_, _, hv⟩, fun _ => ⟨_, rfl⟩⟩, fun error => ⟨?_, ?_⟩⟩
    · rintro ⟨⟩
      exact ⟨_, hv, hmin⟩
    · rintro ⟨i, hv', hmin'⟩
      obtain rfl := Nat.le_antisymm (hmin _ _ hv') (hmin' _ _ hv)
      rw [hv.unique hv']

/-- In `foo(x)` neither the name nor the function is known. The name stands first. -/
theorem parseTokens_unknown_of_undefined :
    Violation .empty [⟨"foo"⟩, ⟨"("⟩, ⟨"x"⟩, ⟨")"⟩] 3 (.unknownFunction "foo") ∧
      parseTokens .empty [⟨"foo"⟩, ⟨"("⟩, ⟨"x"⟩, ⟨")"⟩] = .error (.undefinedVariable "x") := by
  have hx : Derives 254 .expression [⟨"x"⟩] (.reference "x") :=
    .expression_of_factor (.reference (t := ⟨"x"⟩) (by decide))
  have hcall : Derives 255 .factor [⟨"foo"⟩, ⟨"("⟩, ⟨"x"⟩, ⟨")"⟩] (.call "foo" [.reference "x"]) :=
    @Derives.call 254 ⟨"foo"⟩ ⟨"("⟩ _ ⟨")"⟩ _ (by decide) rfl (.one hx) rfl
  have hends : CallEndsAt [⟨"foo"⟩, ⟨"("⟩, ⟨"x"⟩, ⟨")"⟩] 3 "foo" 1 :=
    ⟨255, 0, ⟨"foo"⟩, _, [], [.reference "x"], ⟨rfl, rfl⟩, by decide, rfl, rfl, hcall⟩
  have hreads : ReadsAt [⟨"foo"⟩, ⟨"("⟩, ⟨"x"⟩, ⟨")"⟩] 2 "x" := by
    refine ⟨⟨"x"⟩, rfl, by decide, rfl, ?_⟩
    rintro next ⟨⟩
    decide
  refine ⟨.unknownFunction hends (by decide), ?_⟩
  refine ((parseTokens_violation .empty _).1 _ hcall.expression_of_factor
    (by simp [Expr.height, Expr.heights])).2 _ |>.2 ⟨2, ?_, fun j error' hv => ?_⟩
  · exact .undefinedVariable hreads (by decide) (by decide)
  · rcases j with _ | _ | j
    · exact absurd hv (@not_violation_of_called _ _ _ _ ⟨"foo"⟩ ⟨"("⟩ rfl (by decide) rfl rfl)
    · exact absurd hv (@not_violation_of_inert _ _ _ _ ⟨"("⟩ rfl (Token.inert_opening rfl))
    · omega

end Parser

end EstimateSheet
