import EstimateSheet.Proofs.Concatenation
import EstimateSheet.Proofs.Violations

/-!
# What the defined names decide

Reading asks whether a name is defined only where it reads it, which is where no opening parenthesis
comes next. Sets that tell the same of these names give the same result, a tree or an error
(`Parser.parseTokens_congr`). A tree that is read with some names is read with all that the tree
needs (`Parser.parseTokens_of_contains`), so the names that are defined choose which formulas are
accepted and never what a formula means (`Parser.parseTokens_names`).
-/

namespace EstimateSheet

theorem ReadsAt.exists_of_suffix {ts rest : List Token} {i : Nat} {name : String}
    (h : ReadsAt rest i name) (hs : rest <:+ ts) : ∃ j, ReadsAt ts j name := by
  obtain ⟨used, rfl⟩ := hs
  obtain ⟨t, ht, hname, htext, hnext⟩ := h
  have hget : ∀ k, (used ++ rest)[used.length + k]? = rest[k]? := by
    intro k
    rw [List.getElem?_append_right (Nat.le_add_right _ k), Nat.add_sub_cancel_left]
  refine ⟨used.length + i, t, by rw [hget, ht], hname, htext, ?_⟩
  rw [Nat.add_assoc, hget]
  exact hnext

namespace Names

/-- The sets tell the same of the names that are read from the tokens. -/
def AgreeOn (ts : List Token) (names names' : Names) : Prop :=
  ∀ i name, ReadsAt ts i name → names.contains name = names'.contains name

namespace AgreeOn

variable {names names' : Names} {t : Token} {ts rest : List Token}

theorem of_suffix (h : AgreeOn ts names names') (hs : rest <:+ ts) :
    AgreeOn rest names names' := by
  intro i name hread
  obtain ⟨j, hread'⟩ := hread.exists_of_suffix hs
  exact h j name hread'

theorem tail (h : AgreeOn (t :: rest) names names') : AgreeOn rest names names' :=
  h.of_suffix (List.suffix_cons t rest)

theorem reference_eq (h : AgreeOn (t :: rest) names names') (ht : t.isName = true)
    (hnext : ∀ next, rest[0]? = some next → next.text ≠ "(") (next : Option Token) :
    Parser.reference names t.text next = Parser.reference names' t.text next := by
  unfold Parser.reference
  rw [h 0 t.text ⟨t, rfl, ht, rfl, hnext⟩]

end AgreeOn

end Names

namespace Parser

theorem bind_congr_of_ok {α β : Type} {x : Result α} {f g : α → Result β}
    (h : ∀ a, x = .ok a → f a = g a) : (x >>= f) = (x >>= g) := by
  rcases x with e | a
  · rfl
  · exact h a rfl

theorem suffix_of_readPhrase {names : Names} {nesting : Nat} {p : Phrase} {ts rest : List Token}
    {node : Node} (h : readPhrase names nesting p ts = .ok (node, rest)) : rest <:+ ts := by
  obtain ⟨-, ⟨used, hts, -⟩, -⟩ := readPhrase_sound ts nesting p h
  exact ⟨used, hts.symm⟩

variable {names names' : Names}

variable (names names') in
/-- Every phrase is read from the tokens alike. -/
def AlikeAt (ts : List Token) : Prop :=
  ∀ nesting p, readPhrase names nesting p ts = readPhrase names' nesting p ts

section Step

variable {n : Nat}
  (ih : ∀ ts : List Token, ts.length < n → names.AgreeOn ts names' → AlikeAt names names' ts)

include ih

theorem readMore_congr (nesting : Nat) (layer : Layer) : ∀ (left : Node) (ts : List Token),
    ts.length < n → names.AgreeOn ts names' →
    readMore names nesting layer left ts = readMore names' nesting layer left ts
  | left, [], _, _ => by rw [readMore_eq names, readMore_eq names']
  | left, t :: ts, hn, h => by
    rw [readMore_eq names, readMore_eq names']
    dsimp only
    rw [List.length_cons] at hn
    rcases operatorAt? layer.level t with _ | op
    · rfl
    · dsimp only
      rw [ih ts (by omega) h.tail]
      refine bind_congr_of_ok fun (right, rest) hright => ?_
      have hlen := length_of_readPhrase names' nesting hright
      have hrest := h.tail.of_suffix (suffix_of_readPhrase hright)
      refine bind_congr_of_ok fun joined _ => ?_
      exact readMore_congr nesting layer joined rest (by omega) hrest
termination_by _ ts => ts.length

theorem readSeparated_congr (nesting : Nat) (ts : List Token) (hn : ts.length < n)
    (h : names.AgreeOn ts names') :
    readSeparated names nesting ts = readSeparated names' nesting ts := by
  rw [readSeparated_eq names, readSeparated_eq names', ih ts hn h]
  refine bind_congr_of_ok fun (arg, after) harg => ?_
  have hlen := length_of_readPhrase names' (nesting + 1) harg
  have hafter := h.of_suffix (suffix_of_readPhrase harg)
  rcases after with _ | ⟨t, rest⟩
  · rfl
  · dsimp only
    have hrest : rest.length < ts.length := Nat.lt_of_succ_lt hlen
    rw [readSeparated_congr nesting rest (by omega) hafter.tail]
termination_by ts.length

theorem readArguments_congr (nesting : Nat) (ts : List Token) (hn : ts.length < n)
    (h : names.AgreeOn ts names') :
    readArguments names nesting ts = readArguments names' nesting ts := by
  rw [readArguments_eq names, readArguments_eq names']
  rcases ts with _ | ⟨t, ts⟩
  · exact readSeparated_congr ih nesting [] hn h
  · dsimp only
    rw [readSeparated_congr ih nesting (t :: ts) hn h]

end Step

section Phrases

variable {ts : List Token} (ih : ∀ ts' : List Token, ts'.length < ts.length →
  names.AgreeOn ts' names' → AlikeAt names names' ts') (h : names.AgreeOn ts names') (nesting : Nat)

include ih h

theorem readFactor_congr :
    readPhrase names nesting .factor ts = readPhrase names' nesting .factor ts := by
  rw [readPhrase_factor names, readPhrase_factor names']
  rcases ts with _ | ⟨t, ts⟩
  · rfl
  dsimp only
  rw [ih ts (by simp) h.tail]
  by_cases hname : t.isName = true
  · rcases ts with _ | ⟨next, ts⟩
    · dsimp only
      rw [h.reference_eq hname nofun]
    · dsimp only
      by_cases ho : next.text = "("
      · have hlen : ts.length < (t :: next :: ts).length := by
          simp only [List.length_cons]
          omega
        rw [if_pos ho, if_pos ho, readArguments_congr ih nesting ts hlen h.tail.tail]
      · -- here alone it is asked whether a name is defined
        have hnext : ∀ next', (next :: ts)[0]? = some next' → next'.text ≠ "(" := by
          rintro _ ⟨⟩
          exact ho
        rw [if_neg ho, if_neg ho, h.reference_eq hname hnext]
  · rw [if_neg hname, if_neg hname]

theorem readChain_congr {layer : Layer}
    (hop : readPhrase names nesting layer.operand ts = readPhrase names' nesting layer.operand ts) :
    readPhrase names nesting (.chain layer) ts = readPhrase names' nesting (.chain layer) ts := by
  rw [readPhrase_chain names, readPhrase_chain names', hop]
  refine bind_congr_of_ok fun (first, rest) hfirst => ?_
  have hrest := h.of_suffix (suffix_of_readPhrase hfirst)
  exact readMore_congr ih nesting layer first rest (length_of_readPhrase names' nesting hfirst)
    hrest

theorem readExpression_congr
    (hch : readPhrase names nesting (.chain .disjunction) ts =
      readPhrase names' nesting (.chain .disjunction) ts) :
    readPhrase names nesting .expression ts = readPhrase names' nesting .expression ts := by
  rw [readPhrase_expression names, readPhrase_expression names']
  rcases ts with _ | ⟨t, ts⟩
  · dsimp only
    rw [hch]
  · dsimp only
    rw [hch, ih ts (by simp) h.tail]

end Phrases

/-- The names that are read are the only ones of which reading asks whether they are defined. -/
theorem readPhrase_congr (ts : List Token) (h : names.AgreeOn ts names') :
    AlikeAt names names' ts := by
  intro nesting p
  induction ts, p using Phrase.reading_induction generalizing nesting with
  | factor ts ih =>
    exact readFactor_congr (fun ts' hlt h' nesting p => ih ts' hlt p h' nesting) h nesting
  | chain ts layer ih hop =>
    exact readChain_congr (fun ts' hlt h' nesting p => ih ts' hlt p h' nesting) h nesting
      (hop h nesting)
  | expression ts ih hch =>
    exact readExpression_congr (fun ts' hlt h' nesting p => ih ts' hlt p h' nesting) h nesting
      (hch h nesting)

theorem parseTokens_congr {ts : List Token} (h : names.AgreeOn ts names') :
    parseTokens names ts = parseTokens names' ts := by
  rw [parseTokens_eq names, parseTokens_eq names', readPhrase_congr ts h]

theorem parseTokens_of_contains {ts : List Token} {e : Expr} (h : parseTokens names ts = .ok e)
    (hdefined : ∀ name ∈ e.names, names'.contains name = true) : parseTokens names' ts = .ok e := by
  obtain ⟨hd, -, hcalls, hheight⟩ := parseTokens_sound h
  have hall : ∀ name ∈ e.occurrences, names'.contains name = true := fun name hname =>
    hdefined name (List.mem_eraseDups.2 hname)
  exact parseTokens_complete hd ⟨hall, hcalls, hheight⟩

theorem parseTokens_mono {ts : List Token} {e : Expr}
    (hsub : ∀ name, names.contains name = true → names'.contains name = true)
    (h : parseTokens names ts = .ok e) : parseTokens names' ts = .ok e := by
  obtain ⟨-, hdefined, -, -⟩ := parseTokens_sound h
  exact parseTokens_of_contains h fun name hname =>
    hsub name (hdefined name (List.mem_eraseDups.1 hname))

end Parser

/-- A name that is defined stays so when more is declared. -/
theorem Scan.contains_foldl {s : Scan} {name : String} (h : s.defined.contains name = true)
    (decls : List Declaration) : (decls.foldl add s).defined.contains name = true := by
  rw [defined_eq, Document.contains_iff] at h ⊢
  exact ((prefix_foldl decls s).1.map (·.name)).subset h

namespace Parser

/-- The defined names are a filter and nothing more. Sets that agree on the names that are read from
the tokens give the same result, be it a tree or an error. What is read with some names is read as
the same tree with more of them, and with fewer as long as those in the tree are there. So a formula
that can be read somewhere in a document is read as the same tree after any further declarations. -/
theorem parseTokens_names (names names' : Names) (ts : List Token) :
    (names.AgreeOn ts names' → parseTokens names ts = parseTokens names' ts) ∧
    ((∀ name, names.contains name = true → names'.contains name = true) →
      ∀ e, parseTokens names ts = .ok e → parseTokens names' ts = .ok e) ∧
    (∀ e, parseTokens names' ts = .ok e → (∀ name ∈ e.names, names.contains name = true) →
      parseTokens names ts = .ok e) ∧
    ∀ (s : Scan) (decls : List Declaration) formula e, parse s.defined formula = .ok e →
      parse (decls.foldl Scan.add s).defined formula = .ok e := by
  refine ⟨parseTokens_congr, fun hsub e => parseTokens_mono hsub,
    fun e => parseTokens_of_contains, fun s decls formula e h => ?_⟩
  obtain ⟨ts, hscan, hread⟩ := bind_eq_ok.1 h
  have hsub : ∀ name, s.defined.contains name = true →
      (decls.foldl Scan.add s).defined.contains name = true :=
    fun name hname => Scan.contains_foldl hname decls
  exact bind_eq_ok.2 ⟨ts, hscan, parseTokens_mono hsub hread⟩

/-- A cell that is called like a function does not change what a call of the function is. -/
theorem parseTokens_names_shadowed :
    let names := Names.ofList ["a"]
    let names' := Names.ofList ["a", "max"]
    let ts : List Token := [⟨"max"⟩, ⟨"("⟩, ⟨"a"⟩, ⟨")"⟩]
    let e := Expr.call "max" [.reference "a"]
    let s := [(⟨"a", "1"⟩ : Declaration)].foldl Scan.add .empty
    names.AgreeOn ts names' ∧ parseTokens names ts = parseTokens names' ts ∧
      parseTokens names ts = .ok e ∧ parseTokens names' ts = .ok e ∧
      parse ([⟨"max", "2"⟩].foldl Scan.add s).defined "max(a)" = .ok e := by
  intro names names' ts e s
  have hagree : names.AgreeOn ts names' := by
    rintro i name ⟨t, ht, hname, rfl, hnext⟩
    rcases i with _ | _ | _ | _ | i
    · exact absurd rfl (hnext ⟨"("⟩ rfl)
    · cases ht
      exact absurd hname (by decide)
    · cases ht
      decide
    · cases ht
      exact absurd hname (by decide)
    · cases ht
  have hsub : ∀ name, names.contains name = true → names'.contains name = true := by
    intro name hname
    have hinsert : names'.contains name = (name == "max" || names.contains name) :=
      names.contains_insert "max" name
    rw [hinsert, hname, Bool.or_true]
  have hargs : Separated 254 [⟨"a"⟩] [.reference "a"] :=
    .one (.expression_of_factor (.reference (t := ⟨"a"⟩) (by decide)))
  have hcall : Derives 255 .factor ts e := .call (by decide) rfl hargs rfl
  have hread : parseTokens names' ts = .ok e :=
    parseTokens_complete hcall.expression_of_factor
      ⟨by decide, List.forall_mem_singleton.2 ⟨_, rfl, rfl⟩, by decide⟩
  obtain ⟨heq, hmono, hback, hlater⟩ := parseTokens_names names names' ts
  have hread' : parseTokens names ts = .ok e := hback e hread (by decide)
  have hone : Token.value ⟨"1"⟩ = 1 := by decide +kernel
  have hcell : parse (.ofList []) "1" = .ok (.number 1) :=
    hone ▸ parse_number (t := ⟨"1"⟩) (by decide +kernel) (by decide)
  have hs : s.defined = names :=
    (@Accepted.concat [] ⟨"a", "1"⟩ _ .nil (by decide) (by decide) hcell).replay.defined_eq
  have htokens : Token.scan "max(a)" = .ok ts := by decide +kernel
  refine ⟨hagree, heq hagree, hread', hmono hsub e hread', hlater s _ _ e ?_⟩
  rw [hs]
  exact bind_eq_ok.2 ⟨ts, htokens, hread'⟩

end Parser

end EstimateSheet
