import EstimateSheet.Proofs.Precedence

/-!
# Reading the text of a tree again

The text of a tree has no groupings, so it is read as another tree: precedence and association to
the left alone decide how its operands are joined (`Expr.reread`). What goes by the text from left
to right is the same for both trees (`InOrder.reread_eq`), above all the text itself. The other tree
is flat if `NOT` stands in the text only where an expression begins (`flat_reread`).
-/

namespace EstimateSheet

namespace Expr

/-- The tree of a text followed by an operator and an operand `e` that is no chain. -/
def attach (op : Operator) (e : Expr) : Expr → Expr
  | binary o left right =>
    if op.level < o.level then binary o left (attach op e right)
    else binary op (binary o left right) e
  | t => binary op t e

/-- The tree of the text of `t`, an operator and the text of a further tree. -/
def joined : Expr → Operator → Expr → Expr
  | t, op, binary o left right => joined (joined t op left) o right
  | t, op, e => attach op e t

/-- The same where `t` may be a negation, which takes in all that follows. -/
def followed : Expr → Operator → Expr → Expr
  | not t, op, e => not (joined t op e)
  | t, op, e => joined t op e

mutual

/-- The tree that the text of a tree is read as, if it is read at all. -/
def reread : Expr → Expr
  | number x => if x.isFinite then number x else reference "inf"
  | reference name => reference name
  | binary op left right => followed left.reread op right.reread
  | not operand => not operand.reread
  | call function args => call function (rereadAll args)

def rereadAll : List Expr → List Expr
  | [] => []
  | e :: es => e.reread :: rereadAll es

end

theorem rereadAll_eq : ∀ es : List Expr, rereadAll es = es.map reread
  | [] => by rw [rereadAll, List.map_nil]
  | e :: es => by rw [rereadAll, rereadAll_eq es, List.map_cons]

/-- A function of trees that goes by their texts from left to right: it does not see how operands
are grouped, nor how much of what follows it a `NOT` takes in. -/
structure InOrder {α : Type} (f : Expr → α) (join : Operator → α → α → α) (negate : α → α) :
    Prop where
  binary : ∀ op left right, f (.binary op left right) = join op (f left) (f right)
  not : ∀ operand, f (.not operand) = negate (f operand)
  call_congr : ∀ function {args args'}, args.map f = args'.map f →
    f (.call function args) = f (.call function args')
  join_join : ∀ o op x y z, join op (join o x y) z = join o x (join op y z)
  join_negate : ∀ op x y, join op (negate x) y = negate (join op x y)

namespace InOrder

variable {α : Type} {f : Expr → α} {join : Operator → α → α → α} {negate : α → α}

theorem attach_eq (h : InOrder f join negate) (op : Operator) (e : Expr) : ∀ t : Expr,
    f (attach op e t) = join op (f t) (f e)
  | .binary o left right => by
    rw [attach]
    split_ifs
    · rw [h.binary, h.attach_eq op e right, h.binary, h.join_join]
    · rw [h.binary]
  | .number x => by rw [attach, h.binary]; exact nofun
  | .reference name => by rw [attach, h.binary]; exact nofun
  | .not operand => by rw [attach, h.binary]; exact nofun
  | .call function args => by rw [attach, h.binary]; exact nofun

theorem joined_eq (h : InOrder f join negate) : ∀ (e t : Expr) (op : Operator),
    f (joined t op e) = join op (f t) (f e)
  | .binary o left right, t, op => by
    rw [joined, h.joined_eq right, h.joined_eq left, h.binary, h.join_join]
  | .number x, t, op => by rw [joined, h.attach_eq]; exact nofun
  | .reference name, t, op => by rw [joined, h.attach_eq]; exact nofun
  | .not operand, t, op => by rw [joined, h.attach_eq]; exact nofun
  | .call function args, t, op => by rw [joined, h.attach_eq]; exact nofun

theorem followed_eq (h : InOrder f join negate) (t : Expr) (op : Operator) (e : Expr) :
    f (followed t op e) = join op (f t) (f e) := by
  unfold followed
  split
  · rw [h.not, h.joined_eq, h.not, h.join_negate]
  · exact h.joined_eq e t op

/-- An infinite number is written as a name, and `f` sees it as one. -/
def SeesName (f : Expr → α) : Prop :=
  ∀ x : Number, x.negative = false → x.isNaN = false → x.isFinite = false →
    f (.number x) = f (.reference "inf")

mutual

theorem reread_eq (h : InOrder f join negate) (hinf : SeesName f) : ∀ e : Expr, e.Writable →
    f e.reread = f e
  | .number x, hw => by
    rw [Writable] at hw
    rw [reread]
    split_ifs with hx
    · rfl
    · exact (hinf x hw.1 hw.2 (Bool.eq_false_iff.2 hx)).symm
  | .reference name, _ => by rw [reread]
  | .binary op left right, hw => by
    rw [Writable] at hw
    rw [reread, h.followed_eq, h.reread_eq hinf left hw.1, h.reread_eq hinf right hw.2, h.binary]
  | .not operand, hw => by
    rw [Writable] at hw
    rw [reread, h.not, h.reread_eq hinf operand hw, h.not]
  | .call function args, hw => by
    rw [Writable] at hw
    rw [reread]
    exact h.call_congr function (h.map_rereadAll hinf args hw.2)

theorem map_rereadAll (h : InOrder f join negate) (hinf : SeesName f) : ∀ es : List Expr,
    WritableAll es → (rereadAll es).map f = es.map f
  | [], _ => by rw [rereadAll]
  | e :: es, hw => by
    rw [WritableAll] at hw
    rw [rereadAll, List.map_cons, List.map_cons, h.reread_eq hinf e hw.1,
      h.map_rereadAll hinf es hw.2]

end

end InOrder

theorem reprs_cons {e : Expr} {es : List Expr} (h : es ≠ []) :
    reprs (e :: es) = e.repr ++ ", " ++ reprs es := by
  rw [reprs]
  exact h

theorem reprs_congr : ∀ {es es' : List Expr}, es.map repr = es'.map repr → reprs es = reprs es'
  | [], [], _ => rfl
  | e :: es, e' :: es', h => by
    obtain ⟨he, hes⟩ := List.cons.inj h
    rcases es with _ | ⟨f, es⟩
    · obtain rfl : es' = [] := by simpa using hes.symm
      rw [reprs, reprs, he]
    · have hne : es' ≠ [] := by
        rintro rfl
        cases hes
      rw [reprs_cons (List.cons_ne_nil f es), reprs_cons hne, he, reprs_congr hes]

theorem inOrder_repr :
    InOrder repr (fun op x y => x ++ " " ++ op.sign ++ " " ++ y) ("NOT " ++ ·) where
  binary op left right := by rw [repr]
  not operand := by rw [repr]
  call_congr function args args' h := by rw [repr, repr, reprs_congr h]
  join_join o op x y z := by simp only [String.append_assoc]
  join_negate op x y := by simp only [String.append_assoc]

/-- The other tree has the same text. -/
theorem repr_reread {e : Expr} (hw : e.Writable) : e.reread.repr = e.repr :=
  inOrder_repr.reread_eq
    (fun _ hs hx hf => by rw [repr, repr, Number.toString_infinite hs hx hf]) e hw

theorem callsAll_eq : ∀ es : List Expr, callsAll es = (es.map calls).flatten
  | [] => rfl
  | e :: es => by rw [callsAll, callsAll_eq es, List.map_cons, List.flatten_cons]

theorem inOrder_calls : InOrder calls (fun _ x y => x ++ y) id where
  binary op left right := by rw [calls]
  not operand := by rw [calls, id]
  call_congr function args args' h := by
    have hlength : args.length = args'.length := by simpa using congrArg List.length h
    rw [calls, calls, callsAll_eq, callsAll_eq, h, hlength]
  join_join o op x y z := List.append_assoc x y z
  join_negate op x y := rfl

theorem calls_reread {e : Expr} (hw : e.Writable) : e.reread.calls = e.calls :=
  inOrder_calls.reread_eq (fun _ _ _ _ => by rw [calls, calls]) e hw

theorem nestings_congr : ∀ {es es' : List Expr}, es.map nesting = es'.map nesting →
    nestings es = nestings es'
  | [], [], _ => rfl
  | e :: es, e' :: es', h => by
    simp only [List.map_cons, List.cons.injEq] at h
    rw [nestings, nestings, h.1, nestings_congr h.2]

theorem inOrder_nesting : InOrder nesting (fun _ x y => max x y) id where
  binary op left right := by rw [nesting]
  not operand := by rw [nesting, id]
  call_congr function args args' h := by rw [nesting, nesting, nestings_congr h]
  join_join o op x y z := Nat.max_assoc x y z
  join_negate op x y := rfl

theorem nesting_reread {e : Expr} (hw : e.Writable) : e.reread.nesting = e.nesting :=
  inOrder_nesting.reread_eq (fun _ _ _ _ => by rw [nesting, nesting]) e hw

theorem writableAll_iff : ∀ {es : List Expr}, WritableAll es ↔ ∀ p ∈ es.map Writable, p
  | [] => by simp [WritableAll]
  | e :: es => by
    rw [WritableAll, writableAll_iff, List.map_cons, List.forall_mem_cons]

theorem inOrder_writable : InOrder Writable (fun _ p q => p ∧ q) id where
  binary op left right := by rw [Writable]
  not operand := by rw [Writable, id]
  call_congr function args args' h := by
    rw [Writable, Writable, writableAll_iff, writableAll_iff, h]
  join_join o op p q r := propext and_assoc
  join_negate op p q := rfl

theorem writable_reread {e : Expr} (hw : e.Writable) : e.reread.Writable := by
  rwa [inOrder_writable.reread_eq (fun x hs hx _ => ?_) e hw]
  rw [Writable, Writable, eq_true (⟨hs, hx⟩ : x.negative = false ∧ x.isNaN = false)]
  exact (eq_true (by decide)).symm

mutual

/-- The numbers of an expression, from left to right. -/
def literals : Expr → List Number
  | number x => [x]
  | reference _ => []
  | binary _ left right => left.literals ++ right.literals
  | not operand => operand.literals
  | call _ args => literalsAll args

def literalsAll : List Expr → List Number
  | [] => []
  | e :: es => e.literals ++ literalsAll es

end

section Defined

variable (names : Names)

/-- The names in the text of an expression are defined, an infinite number being one of them. -/
def Defined (e : Expr) : Prop :=
  (∀ name ∈ e.occurrences, names.contains name = true) ∧
    ((∀ x ∈ e.literals, x.isFinite = true) ∨ names.contains "inf" = true)

theorem definedAll_iff : ∀ {es : List Expr},
    (∀ name ∈ occurrencesAll es, names.contains name = true) ∧
      ((∀ x ∈ literalsAll es, x.isFinite = true) ∨ names.contains "inf" = true) ↔
    ∀ p ∈ es.map (Defined names), p
  | [] => by simp [occurrencesAll, literalsAll]
  | e :: es => by
    rw [List.map_cons, List.forall_mem_cons, ← definedAll_iff, Defined, occurrencesAll, literalsAll,
      List.forall_mem_append, List.forall_mem_append]
    tauto

theorem inOrder_defined : InOrder (Defined names) (fun _ p q => p ∧ q) id where
  binary op left right := by
    simp only [Defined, occurrences, literals, List.forall_mem_append, eq_iff_iff]
    tauto
  not operand := by simp only [Defined, occurrences, literals, id]
  call_congr function args args' h := by
    simp only [Defined, occurrences, literals, definedAll_iff, h]
  join_join o op p q r := propext and_assoc
  join_negate op p q := rfl

theorem defined_reread {e : Expr} (hw : e.Writable) : e.reread.Defined names ↔ e.Defined names := by
  refine iff_of_eq ((inOrder_defined names).reread_eq (fun x _ _ hf => ?_) e hw)
  simp [Defined, occurrences, literals, hf]

end Defined

mutual

theorem Flat.isFinite_of_mem : ∀ {e : Expr} {level : Nat}, e.Flat level →
    ∀ x ∈ e.literals, x.isFinite = true
  | .number x, _, h => by
    rw [Flat] at h
    simpa [literals] using h
  | .reference name, _, _ => by simp [literals]
  | .binary op left right, _, h => by
    rw [Flat] at h
    rw [literals, List.forall_mem_append]
    exact ⟨h.2.1.isFinite_of_mem, h.2.2.isFinite_of_mem⟩
  | .not operand, _, h => by
    rw [Flat] at h
    rw [literals]
    exact h.2.isFinite_of_mem
  | .call function args, _, h => by
    rw [Flat] at h
    rw [literals]
    exact h.isFinite_of_mem

theorem FlatAll.isFinite_of_mem : ∀ {es : List Expr}, FlatAll es →
    ∀ x ∈ literalsAll es, x.isFinite = true
  | [], _ => by simp [literalsAll]
  | e :: es, h => by
    rw [FlatAll] at h
    rw [literalsAll, List.forall_mem_append]
    exact ⟨h.1.isFinite_of_mem, h.2.isFinite_of_mem⟩

end

mutual

/-- `NOT` stands only where an expression begins: an argument, or the whole if `first`. -/
def negationsLead : Bool → Expr → Bool
  | _, number _ => true
  | _, reference _ => true
  | first, binary _ left right => left.negationsLead first && right.negationsLead false
  | first, not operand => first && operand.negationsLead false
  | _, call _ args => allNegationsLead args

def allNegationsLead : List Expr → Bool
  | [] => true
  | e :: es => e.negationsLead true && allNegationsLead es

end

section Flat

variable {op : Operator}

theorem Flat.attach {e : Expr} (he : e.Flat 0) : ∀ {t : Expr} {level : Nat}, t.Flat level →
    level ≤ Operator.topLevel → op.level ≤ level → (attach op e t).Flat level
  | .binary o left right, level, h, hlevel, hop => by
    rw [Flat] at h
    rw [Expr.attach]
    split_ifs with hlt
    · rw [Flat]
      exact ⟨h.1, h.2.1, Flat.attach he h.2.2 (by omega) (by omega)⟩
    · rw [Flat, Flat]
      exact ⟨hop, ⟨by omega, h.2⟩, he.mono (Nat.zero_le _)⟩
  | .number x, level, h, _, hop => by
    rw [Flat] at h
    rw [Expr.attach, Flat, Flat]
    · exact ⟨hop, h, he.mono (Nat.zero_le _)⟩
    · exact nofun
  | .reference name, level, _, _, hop => by
    rw [Expr.attach, Flat, Flat]
    · exact ⟨hop, trivial, he.mono (Nat.zero_le _)⟩
    · exact nofun
  | .not operand, level, h, hlevel, _ => by
    rw [Flat] at h
    exact absurd h.1 (Nat.not_lt.2 hlevel)
  | .call function args, level, h, _, hop => by
    rw [Flat] at h
    rw [Expr.attach, Flat, Flat]
    · exact ⟨hop, h, he.mono (Nat.zero_le _)⟩
    · exact nofun

theorem Flat.joined : ∀ {e t : Expr} {op : Operator}, t.Flat Operator.topLevel →
    e.Flat Operator.topLevel → (joined t op e).Flat Operator.topLevel
  | .binary o left right, t, op, ht, he => by
    rw [Flat] at he
    rw [Expr.joined]
    have hleft : (Expr.joined t op left).Flat Operator.topLevel := ht.joined (he.2.1.mono he.1)
    have hright := he.2.2.mono ((Nat.sub_le _ _).trans he.1)
    exact hleft.joined hright
  | .number x, t, op, ht, he => by
    rw [Expr.joined]
    · exact .attach (by rwa [Flat] at he ⊢) ht (Nat.le_refl _) op.level_le
    · exact nofun
  | .reference name, t, op, ht, _ => by
    rw [Expr.joined]
    · exact .attach (by rw [Flat]; trivial) ht (Nat.le_refl _) op.level_le
    · exact nofun
  | .not operand, t, op, _, he => by
    rw [Flat] at he
    exact absurd he.1 (Nat.lt_irrefl _)
  | .call function args, t, op, ht, he => by
    rw [Expr.joined]
    · exact .attach (by rwa [Flat] at he ⊢) ht (Nat.le_refl _) op.level_le
    · exact nofun

theorem Flat.followed {t e : Expr} {level : Nat} (ht : t.Flat level)
    (hlevel : Operator.topLevel ≤ level) (he : e.Flat Operator.topLevel) :
    (followed t op e).Flat level := by
  unfold Expr.followed
  split
  next operand =>
    rw [Flat] at ht ⊢
    exact ⟨ht.1, ht.2.joined he⟩
  next hnot =>
    have htop : t.Flat Operator.topLevel := by
      rcases t with x | name | ⟨o, left, right⟩ | operand | ⟨function, args⟩
      · rwa [Flat] at ht ⊢
      · rwa [Flat] at ht ⊢
      · rw [Flat] at ht ⊢
        exact ⟨o.level_le, ht.2⟩
      · exact absurd rfl (hnot operand)
      · rwa [Flat] at ht ⊢
    exact (htop.joined he).mono hlevel

mutual

/-- If `NOT` stands only where an expression begins, the tree that the text is read as is flat. -/
theorem flat_reread : ∀ {e : Expr} {first : Bool}, e.negationsLead first = true →
    e.reread.Flat (Operator.topLevel + first.toNat)
  | .number x, first, _ => by
    rw [reread]
    split_ifs with hx
    · rwa [Flat]
    · rw [Flat]
      trivial
  | .reference name, first, _ => by
    rw [reread, Flat]
    trivial
  | .binary op left right, first, h => by
    rw [negationsLead, Bool.and_eq_true] at h
    rw [reread]
    exact (flat_reread h.1).followed (Nat.le_add_right _ _) (flat_reread h.2)
  | .not operand, first, h => by
    rw [negationsLead, Bool.and_eq_true] at h
    obtain ⟨rfl, h⟩ := h
    rw [reread, Flat]
    exact ⟨Nat.lt_succ_self _, flat_reread h⟩
  | .call function args, first, h => by
    rw [negationsLead] at h
    rw [reread, Flat]
    exact flatAll_reread h

theorem flatAll_reread : ∀ {es : List Expr}, allNegationsLead es = true → FlatAll (rereadAll es)
  | [], _ => by
    rw [rereadAll, FlatAll]
    trivial
  | e :: es, h => by
    rw [allNegationsLead, Bool.and_eq_true] at h
    rw [rereadAll, FlatAll]
    exact ⟨flat_reread h.1, flatAll_reread h.2⟩

end

end Flat

mutual

theorem nesting_lt : ∀ e : Expr, e.nesting < e.height
  | .number _ => by rw [nesting, height]; exact Nat.one_pos
  | .reference _ => by rw [nesting, height]; exact Nat.one_pos
  | .binary _ left right => by
    have hleft := nesting_lt left
    have hright := nesting_lt right
    rw [nesting, height]
    omega
  | .not operand => by
    have h := nesting_lt operand
    rw [nesting, height]
    omega
  | .call _ args => by
    rw [nesting, height]
    exact Nat.lt_succ_of_le (nestings_le args)

theorem nestings_le : ∀ es : List Expr, nestings es ≤ heights es
  | [] => by rw [nestings, heights]
  | e :: es => by
    have he := nesting_lt e
    have hes := nestings_le es
    rw [nestings, heights]
    omega

end

end Expr

open EstimateSheet.Expr

namespace Parser

variable {names : Names}

/-- If `NOT` stands in the text of an expression only where one begins, the text is read as the
other tree or not at all. -/
theorem parse_repr_of_negationsLead {e e' : Expr} (hw : e.Writable) (hn : e.nesting < maxDepth)
    (hnot : e.negationsLead true = true) :
    parse names e.repr = .ok e' ↔ e' = e.reread ∧ e.Defined names ∧
      (∀ c ∈ e.calls, Registry.Accepts c) ∧ e.reread.height ≤ maxDepth := by
  have hflat : e.reread.Flat (Operator.topLevel + 1) := flat_reread hnot
  have hnested : e.reread.nesting < maxDepth := by rwa [nesting_reread hw]
  rw [← repr_reread hw, parse_repr_of_flat hflat (writable_reread hw) hnested,
    ← defined_reread names hw, ← calls_reread hw]
  refine and_congr_right fun _ => ⟨fun h => ?_, fun h => ⟨h.1.1, h.2.1, h.2.2⟩⟩
  exact ⟨⟨h.defined, .inl hflat.isFinite_of_mem⟩, h.callable, h.height_le⟩

end Parser

end EstimateSheet
