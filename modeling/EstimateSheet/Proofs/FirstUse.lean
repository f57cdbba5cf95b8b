import EstimateSheet.Proofs.Dependencies
import EstimateSheet.Proofs.Precedence
import EstimateSheet.Proofs.Violations

/-!
# Names in the order of first use

A formula is regrouped when it is read, by precedence and from left to right, but its operands keep
their order. So the names that stand in the tree of a phrase are, from left to right, those that are
read from its tokens (`Derives.reads`), and the names of the tree are these in the order in which
they are first read (`FirstUses`), each once. A walk through the tree that puts every name it finds
behind those found so far, unless it is there, comes to the same list (`Expr.collect_eq`).
-/

namespace EstimateSheet

section Lists

variable {α : Type} [DecidableEq α]

theorem foldl_note (as : List α) (found : List α) :
    as.foldl note found = found ++ (as.filter fun a => a ∉ found).eraseDups := by
  induction as generalizing found with
  | nil => simp
  | cons a as ih =>
    rw [List.foldl_cons, ih]
    unfold note
    split_ifs with ha
    · simp [ha]
    · have hrest : (as.filter fun b => b ∉ found ++ [a]) =
          (as.filter fun b => b ∉ found).filter fun b => !b == a := by
        rw [List.filter_filter]
        exact List.filter_congr fun b _ => by simp [and_comm, beq_eq_decide]
      rw [hrest, List.filter_cons_of_pos (by simpa using ha), List.eraseDups_cons,
        List.append_assoc, List.singleton_append]

end Lists

namespace Expr

mutual

theorem collect_eq_foldl : ∀ (e : Expr) (found : List String),
    e.collect found = e.occurrences.foldl note found
  | number _, _ => rfl
  | reference _, _ => rfl
  | binary _ left right, found => by
    rw [collect, occurrences, List.foldl_append, collect_eq_foldl left, collect_eq_foldl right]
  | not operand, found => by rw [collect, occurrences, collect_eq_foldl operand]
  | call _ args, found => by rw [collect, occurrences, collectAll_eq_foldl args]

theorem collectAll_eq_foldl : ∀ (es : List Expr) (found : List String),
    collectAll es found = (occurrencesAll es).foldl note found
  | [], _ => rfl
  | e :: es, found => by
    rw [collectAll, occurrencesAll, List.foldl_append, collect_eq_foldl e, collectAll_eq_foldl es]

end

/-- Walking through the tree finds its names. -/
theorem collect_eq (e : Expr) : e.collect [] = e.names := by
  rw [collect_eq_foldl, foldl_note, List.nil_append, names]
  simp

end Expr

section Positions

variable {t : Token} {ts : List Token} {i : Nat} {name : String}

namespace Token

/-- The token is a name, and no parenthesis after it makes it the name of a call. -/
def isRead (t : Token) (rest : List Token) : Bool :=
  t.isName && rest.head?.all (·.text != "(")

/-- The names that are read from the tokens, each as often as it is read. -/
def reads : List Token → List String
  | [] => []
  | t :: ts => if t.isRead ts then t.text :: reads ts else reads ts

end Token

open Token

theorem readsAt_zero : ReadsAt (t :: ts) 0 name ↔ t.isRead ts = true ∧ t.text = name := by
  have hnext : (t :: ts)[0 + 1]? = ts.head? := List.head?_eq_getElem?.symm
  unfold ReadsAt isRead
  simp [hnext, Option.all_eq_true, and_left_comm, and_comm]

theorem readsAt_succ : ReadsAt (t :: ts) (i + 1) name ↔ ReadsAt ts i name := Iff.rfl

theorem mem_reads : name ∈ reads ts ↔ ∃ i, ReadsAt ts i name := by
  induction ts with
  | nil => simp [reads, ReadsAt]
  | cons t ts ih =>
    have hsplit : (∃ i, ReadsAt (t :: ts) i name) ↔
        t.isRead ts = true ∧ t.text = name ∨ ∃ i, ReadsAt ts i name := by
      rw [← Nat.or_exists_add_one, readsAt_zero]
      exact or_congr_right (exists_congr fun _ => readsAt_succ)
    rw [hsplit, ← ih, reads]
    split_ifs with hread
    · simp [hread, eq_comm]
    · simp [hread]

/-- One name is read from the tokens before another is. -/
def ReadBefore (ts : List Token) (a b : String) : Prop :=
  ∀ j, ReadsAt ts j b → ∃ i < j, ReadsAt ts i a

/-- A name that is not the first one is read where it is read from the tokens after that. -/
theorem ReadBefore.cons {a b : String} (h : ReadBefore ts a b)
    (hb : ¬ (t.isRead ts = true ∧ t.text = b)) : ReadBefore (t :: ts) a b := by
  intro j hj
  rcases j with _ | j
  · exact absurd (readsAt_zero.1 hj) hb
  · obtain ⟨i, hi, ha⟩ := h j (readsAt_succ.1 hj)
    exact ⟨i + 1, by omega, readsAt_succ.2 ha⟩

theorem readBefore_of_ne {b : String} (hread : t.isRead ts = true) (hne : t.text ≠ b) :
    ReadBefore (t :: ts) t.text b := by
  intro j hj
  rcases j with _ | j
  · exact absurd (readsAt_zero.1 hj).2 hne
  · exact ⟨0, Nat.succ_pos j, readsAt_zero.2 ⟨hread, rfl⟩⟩

/-- Names that are first read in this order, of those that satisfy a condition. -/
theorem pairwise_reads (ts : List Token) (p : String → Bool) :
    ((reads ts).filter p).eraseDups.Pairwise fun a b => a ≠ b ∧ ReadBefore ts a b := by
  induction ts generalizing p with
  | nil => exact .nil
  | cons t ts ih =>
    rw [reads]
    split_ifs with hread
    · by_cases hp : p t.text = true
      · have hother : ∀ b ∈ (((reads ts).filter p).filter fun b => !b == t.text).eraseDups,
            t.text ≠ b := by
          intro b hb
          rw [List.mem_eraseDups, List.mem_filter] at hb
          exact fun heq => by simp [heq] at hb
        rw [List.filter_cons_of_pos hp, List.eraseDups_cons, List.pairwise_cons]
        refine ⟨fun b hb => ⟨hother b hb, readBefore_of_ne hread (hother b hb)⟩, ?_⟩
        have hrest := ih fun b => p b && !b == t.text
        rw [List.filter_filter] at hother ⊢
        simp only [Bool.and_comm] at hother hrest ⊢
        exact hrest.imp_of_mem fun _ hb h => ⟨h.1, h.2.cons fun heq => hother _ hb heq.2⟩
      · rw [List.filter_cons_of_neg hp]
        refine (ih p).imp_of_mem fun _ hb h => ⟨h.1, h.2.cons fun heq => ?_⟩
        rw [List.mem_eraseDups, List.mem_filter, ← heq.2] at hb
        exact hp hb.2
    · exact (ih p).imp fun h => ⟨h.1, h.2.cons fun heq => hread heq.1⟩

end Positions

/-- The names that are read from the tokens, each once, in the order in which they are first read.
There is one such list only. -/
structure FirstUses (ts : List Token) (found : List String) : Prop where
  nodup : found.Nodup
  mem_iff : ∀ name, name ∈ found ↔ ∃ i, ReadsAt ts i name
  ordered : found.Pairwise (ReadBefore ts)

namespace FirstUses

variable {ts : List Token} {found found' : List String}

theorem eraseDups_reads (ts : List Token) : FirstUses ts (Token.reads ts).eraseDups := by
  have hpairwise := pairwise_reads ts fun _ => true
  rw [List.filter_true] at hpairwise
  exact ⟨hpairwise.imp And.left, fun name => by rw [List.mem_eraseDups, mem_reads],
    hpairwise.imp And.right⟩

/-- No two names are read before each other. -/
theorem not_readsAt_of_readBefore {a b : String} (hab : ReadBefore ts a b)
    (hba : ReadBefore ts b a) (i : Nat) : ¬ ReadsAt ts i a := by
  intro hi
  obtain ⟨j, hj, hb⟩ := hba i hi
  obtain ⟨k, hk, ha⟩ := hab j hb
  exact not_readsAt_of_readBefore hab hba k ha
termination_by i

theorem unique (h : FirstUses ts found) (h' : FirstUses ts found') : found = found' := by
  have hperm : found.Perm found' := (List.perm_ext_iff_of_nodup h.nodup h'.nodup).2 fun name => by
    rw [h.mem_iff, h'.mem_iff]
  refine hperm.eq_of_pairwise (fun a b ha _ hab hba => ?_) h.ordered h'.ordered
  obtain ⟨i, hi⟩ := (h.mem_iff a).1 ha
  exact absurd hi (not_readsAt_of_readBefore hab hba i)

end FirstUses

namespace Token

variable {t opening closing : Token} {ts ts' : List Token} {found found' : List String}

/-- These names are read from the tokens, whatever follows if no parenthesis opens there. -/
def Reads (ts : List Token) (found : List String) : Prop :=
  ∀ rest, Parser.Stops 0 rest → reads (ts ++ rest) = found ++ reads rest

theorem reads_cons (h : ¬ t.isName = true) : reads (t :: ts) = reads ts := by
  rw [reads, isRead, Bool.eq_false_iff.2 h, Bool.false_and, if_neg Bool.false_ne_true]

namespace Reads

theorem reads_eq (h : Reads ts found) : reads ts = found := by
  have hnil := h [] .nil
  rwa [List.append_nil, reads, List.append_nil] at hnil

theorem name (ht : t.isName = true) : Reads [t] [t.text] := by
  intro rest hstops
  have hnext : rest.head?.all (·.text != "(") = true :=
    (Option.all_eq_true _ _).2 fun next hnext => bne_iff_ne.2 (hstops next hnext).1
  simp [reads, isRead, ht, hnext]

theorem nil : Reads [] [] := fun _ _ => rfl

theorem cons (ht : ¬ t.isName = true) (h : Reads ts found) : Reads (t :: ts) found := by
  intro rest hstops
  rw [List.cons_append, reads_cons ht, h rest hstops]

theorem append_cons (h : Reads ts found) (hname : ¬ t.isName = true)
    (hstops : ∀ rest, Parser.Stops 0 (t :: rest)) (h' : Reads ts' found') :
    Reads (ts ++ t :: ts') (found ++ found') := by
  intro rest hrest
  rw [List.append_assoc, List.cons_append, h _ (hstops _), reads_cons hname, h' rest hrest,
    List.append_assoc]

theorem group (ho : opening.text = "(") (h : Reads ts found) (hc : closing.text = ")") :
    Reads (opening :: (ts ++ [closing])) found := by
  have hinner := h.append_cons (not_isName_of_closing hc) (fun _ => .closing hc) nil
  rw [List.append_nil] at hinner
  exact hinner.cons (inert_opening ho).1

/-- The name of a call is not read. -/
theorem call (ho : opening.text = "(") (h : Reads ts found) (hc : closing.text = ")") :
    Reads (t :: opening :: (ts ++ [closing])) found := by
  intro rest hstops
  rw [List.cons_append, reads, isRead, List.cons_append, List.head?_cons, Option.all_some, ho,
    bne_self_eq_false, Bool.and_false, if_neg Bool.false_ne_true]
  exact h.group ho hc rest hstops

end Reads

end Token

open Token

mutual

/-- The names in the tree of a phrase are those that are read from its tokens. -/
theorem Derives.reads {n : Nat} : ∀ {p : Phrase} {ts : List Token} {e : Expr}, Derives n p ts e →
    Reads ts e.occurrences
  | _, _, _, .negation ht hd => hd.reads.cons (inert_negation ht).1
  | _, _, _, .plain hd => hd.reads
  | _, _, _, .chain hd hc => hc.reads hd.reads
  | _, _, _, .group ho hd hc => hd.reads.group ho hc
  | _, _, _, .emptyCall _ ho hc => Reads.nil.call ho hc
  | _, _, _, .call _ ho hsep hc => hsep.reads.call ho hc
  | _, _, _, .reference ht => .name ht
  | _, _, _, .number ht => Reads.nil.cons (inert_of_isNumber ht).1

theorem Continues.reads {n : Nat} {layer : Layer} : ∀ {ts : List Token}
    {more : List (Operator × Expr)}, Continues n layer ts more →
    ∀ {ts₀ : List Token} {first : Expr}, Reads ts₀ first.occurrences →
      Reads (ts₀ ++ ts) (first.chained more).occurrences
  | _, _, .done, ts₀, first, h => by
    rw [List.append_nil]
    exact h
  | _, _, @Continues.more _ _ t op ts ts' e more ht hd hc, ts₀, first, h => by
    have hbinary : Reads (ts₀ ++ t :: ts) (Expr.binary op first e).occurrences :=
      h.append_cons (inert_of_operator ht).1 (fun _ => .operator ht layer.level_bounds.1) hd.reads
    have hmore := hc.reads hbinary
    rwa [List.append_assoc, List.cons_append] at hmore

theorem Separated.reads {n : Nat} : ∀ {ts : List Token} {es : List Expr}, Separated n ts es →
    Reads ts (Expr.occurrencesAll es)
  | _, _, .one hd => by
    rw [Expr.occurrencesAll, Expr.occurrencesAll, List.append_nil]
    exact hd.reads
  | _, _, .more hd hcomma hsep => by
    rw [Expr.occurrencesAll]
    exact hd.reads.append_cons (inert_comma hcomma).1 (fun _ => .comma hcomma) hsep.reads

end

namespace Parser

theorem names_of_parseTokens {names : Names} {ts : List Token} {e : Expr}
    (h : parseTokens names ts = .ok e) : e.names = (Token.reads ts).eraseDups := by
  rw [Expr.names, (parseTokens_sound h).1.reads.reads_eq]

/-- The names of a formula are those that are read from its tokens, each once and in the order of
first use, and all of them are defined. So the dependencies of a cell are the cells that its formula
names, each once and in this order. -/
theorem parseTokens_firstUses :
    (∀ (names : Names) (ts : List Token) (e : Expr), parseTokens names ts = .ok e →
      e.names = (Token.reads ts).eraseDups ∧ FirstUses ts e.names ∧
        (∀ found, FirstUses ts found → found = e.names) ∧ e.collect [] = e.names ∧
        ∀ name ∈ e.names, names.contains name = true) ∧
    ∀ text, ∀ cell ∈ (Document.parse text).cells, ∃ ts, Token.scan cell.formula = .ok ts ∧
      FirstUses ts cell.dependencies ∧
      ∀ name ∈ cell.dependencies, name ∈ (Document.parse text).names := by
  refine ⟨fun names ts e h => ?_, fun text cell hcell => ?_⟩
  · have hnames := names_of_parseTokens h
    have huses : FirstUses ts e.names := hnames ▸ .eraseDups_reads ts
    refine ⟨hnames, huses, fun found hfound => hfound.unique huses, e.collect_eq,
      fun name hname => ?_⟩
    exact (parseTokens_sound h).2.defined name (List.mem_eraseDups.1 hname)
  · obtain ⟨k, hk⟩ := List.mem_iff_getElem?.1 hcell
    obtain ⟨names, -, hparse⟩ := Document.formulasRead_parse text k cell hk
    obtain ⟨ts, hscan, hread⟩ := bind_eq_ok.1 hparse
    refine ⟨ts, hscan, ?_, fun name hname => ?_⟩
    · rw [Cell.dependencies, names_of_parseTokens hread]
      exact .eraseDups_reads ts
    · exact Document.reads_names hcell (Cell.mem_dependencies.1 hname)

/-- The name of a call is not read, but a cell that is called like the function is. -/
theorem parseTokens_firstUses_call :
    let names := Names.ofList ["max", "b"]
    let ts : List Token :=
      [⟨"b"⟩, ⟨"+"⟩, ⟨"max"⟩, ⟨"("⟩, ⟨"max"⟩, ⟨","⟩, ⟨"b"⟩, ⟨")"⟩]
    let e := Expr.binary (.arithmetic .add) (.reference "b")
      (.call "max" [.reference "max", .reference "b"])
    parseTokens names ts = .ok e ∧ e.names = ["b", "max"] ∧ FirstUses ts ["b", "max"] := by
  intro names ts e
  have hargs : Separated 254 [⟨"max"⟩, ⟨","⟩, ⟨"b"⟩] [.reference "max", .reference "b"] :=
    .more (.name (t := ⟨"max"⟩) (by decide)) rfl (.one (.name (t := ⟨"b"⟩) (by decide)))
  have hcall : Derives 255 .factor (⟨"max"⟩ :: ⟨"("⟩ :: ([⟨"max"⟩, ⟨","⟩, ⟨"b"⟩] ++ [⟨")"⟩]))
      (.call "max" [.reference "max", .reference "b"]) := .call (by decide) rfl hargs rfl
  have hsum : Derives 255 (.chain .sum) ts e :=
    Derives.binary (.arithmetic .add) rfl (.name (t := ⟨"b"⟩) (by decide))
      (hcall.loosen (by rintro ⟨⟩) (by decide))
  have hread : parseTokens names ts = .ok e :=
    parseTokens_complete (hsum.loosen (by rintro ⟨⟩) (by decide))
      ⟨by decide, List.forall_mem_singleton.2 ⟨_, rfl, rfl⟩, by decide⟩
  obtain ⟨hnames, huses, -⟩ := parseTokens_firstUses.1 names ts e hread
  have hfound : e.names = ["b", "max"] := hnames.trans (by decide)
  exact ⟨hread, hfound, hfound ▸ huses⟩

end Parser

end EstimateSheet
