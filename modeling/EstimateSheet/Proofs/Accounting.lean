import EstimateSheet.Proofs.Dependencies

/-!
# What becomes of the declarations

Each declaration of a text becomes a cell or a diagnostic, and both keep the order of the text.
Which of them it becomes is decided by its name, its formula and the cells accepted before it
(`Ruling.Decided`); the declarations that were left out have no say. From this the names of the
cells are valid and different, the cells are numbered and found by name, and they depend on earlier
cells only (`Document.parse_accounts`).
-/

namespace EstimateSheet

/-- A declaration and what becomes of it: the expression of a cell, or a reason to leave it out. -/
structure Ruling where
  declaration : Declaration
  fate : Except DeclarationError Expr

namespace Ruling

/-- The cells that some rulings make, numbered in order. -/
def accepted (rulings : List Ruling) : List Cell :=
  (rulings.filterMap fun r => r.fate.toOption.map (r.declaration, ·)).mapIdx
    fun k (decl, expr) => ⟨decl.name, decl.formula, expr, k⟩

/-- The diagnostics that some rulings make. -/
def rejected (rulings : List Ruling) : List Diagnostic :=
  rulings.filterMap fun r =>
    match r.fate with
    | .ok _ => none
    | .error e => some ⟨r.declaration.name, r.declaration.formula, e⟩

/-- The ruling that is due after some cells: a name that is no identifier or a keyword is invalid,
one that an earlier cell has is a duplicate, and else the formula decides, read with the names of
the earlier cells. -/
structure Decided (earlier : List Cell) (r : Ruling) : Prop where
  invalidName : r.fate = .error (.invalidName r.declaration.name) ↔
    (Token.mk r.declaration.name).isIdentifier = false ∨
      (Token.mk r.declaration.name).isKeyword = true
  duplicate : r.fate = .error (.duplicate r.declaration.name) ↔
    (Token.mk r.declaration.name).isName = true ∧ ∃ cell ∈ earlier, cell.name = r.declaration.name
  formula : (Token.mk r.declaration.name).isName = true →
    (∀ cell ∈ earlier, cell.name ≠ r.declaration.name) →
    r.fate = (Parser.parse (.ofList (earlier.map (·.name))) r.declaration.formula).mapError .formula

variable {rulings : List Ruling} {decl : Declaration}

theorem accepted_concat_ok (expr : Expr) : accepted (rulings ++ [⟨decl, .ok expr⟩]) =
    accepted rulings ++ [⟨decl.name, decl.formula, expr, (accepted rulings).length⟩] := by
  simp [accepted, List.filterMap_append, List.mapIdx_append, Except.toOption]

theorem accepted_concat_error (e : DeclarationError) :
    accepted (rulings ++ [⟨decl, .error e⟩]) = accepted rulings := by
  simp [accepted, List.filterMap_append, Except.toOption]

theorem rejected_concat_ok (expr : Expr) :
    rejected (rulings ++ [⟨decl, .ok expr⟩]) = rejected rulings := by
  simp [rejected, List.filterMap_append]

theorem rejected_concat_error (e : DeclarationError) : rejected (rulings ++ [⟨decl, .error e⟩]) =
    rejected rulings ++ [⟨decl.name, decl.formula, e⟩] := by
  simp [rejected, List.filterMap_append]

end Ruling

open Ruling

theorem Token.isName_eq_false {t : Token} :
    t.isName = false ↔ t.isIdentifier = false ∨ t.isKeyword = true := by
  rw [isName, Bool.and_eq_false_iff, Bool.not_eq_false']

theorem Document.exists_cell_iff {d : Document} {name : String} :
    (∃ cell ∈ d.cells, cell.name = name) ↔ d.contains name = true := by
  rw [contains_iff, names, List.mem_map]

section

variable {d : Document} {decl : Declaration} {defined : Names}

theorem Document.accept_of_invalid (h : (Token.mk decl.name).isName = false) :
    d.accept decl defined = .error (.invalidName decl.name) := by
  unfold accept
  rw [h, if_pos (by decide)]

theorem Document.accept_of_taken (h : (Token.mk decl.name).isName = true)
    (ht : d.contains decl.name = true) :
    d.accept decl defined = .error (.duplicate decl.name) := by
  unfold accept
  rw [h, if_neg (by decide), if_pos ht]

theorem Document.accept_of_fresh (h : (Token.mk decl.name).isName = true)
    (ht : ¬ d.contains decl.name = true) :
    d.accept decl defined = (Parser.parse defined decl.formula).mapError .formula := by
  unfold accept
  rw [h, if_neg (by decide), if_neg ht]

theorem mapError_formula_ne (result : Parser.Result Expr) (name : String) :
    result.mapError DeclarationError.formula ≠ .error (.invalidName name) ∧
      result.mapError DeclarationError.formula ≠ .error (.duplicate name) := by
  rcases result with e | expr
  · exact ⟨nofun, nofun⟩
  · exact ⟨nofun, nofun⟩

theorem Document.decided_accept (d : Document) (decl : Declaration) :
    Decided d.cells ⟨decl, d.accept decl (.ofList d.names)⟩ := by
  have hinvalid := Token.isName_eq_false (t := ⟨decl.name⟩)
  have htaken : (∃ cell ∈ d.cells, cell.name = decl.name) ↔ _ := exists_cell_iff
  rcases hname : (Token.mk decl.name).isName with _ | _
  · rw [accept_of_invalid hname]
    refine ⟨⟨fun _ => hinvalid.1 hname, fun _ => rfl⟩, ⟨nofun, fun h => ?_⟩, fun h => ?_⟩
    · exact absurd h.1 (by rw [hname]; decide)
    · exact absurd h (by rw [hname]; decide)
  · have hvalid := hinvalid.not.1 (by rw [hname]; decide)
    by_cases ht : d.contains decl.name = true
    · rw [accept_of_taken hname ht]
      refine ⟨⟨nofun, fun h => absurd h hvalid⟩, ⟨fun _ => ⟨hname, htaken.2 ht⟩, fun _ => rfl⟩,
        fun _ hfresh => ?_⟩
      obtain ⟨cell, hcell, heq⟩ := htaken.2 ht
      exact absurd heq (hfresh cell hcell)
    · rw [accept_of_fresh hname ht]
      have hne := mapError_formula_ne (Parser.parse (.ofList d.names) decl.formula) decl.name
      refine ⟨⟨fun h => absurd h hne.1, fun h => absurd h hvalid⟩,
        ⟨fun h => absurd h hne.2, fun h => ?_⟩, fun _ _ => rfl⟩
      exact absurd (htaken.1 h.2) ht

end

/-- The rulings on the declarations scanned so far. -/
structure Accounts (rulings : List Ruling) (s : Scan) : Prop where
  cells_eq : s.document.cells = accepted rulings
  diagnostics_eq : s.document.diagnostics = rejected rulings
  defined_eq : s.defined = .ofList s.document.names
  decided : ∀ (j : Nat) (r : Ruling), rulings[j]? = some r → r.Decided (accepted (rulings.take j))

namespace Accounts

variable {rulings : List Ruling} {s : Scan}

theorem empty : Accounts [] .empty := ⟨rfl, rfl, rfl, nofun⟩

theorem decided_concat (h : Accounts rulings s) {r : Ruling} (hr : r.Decided (accepted rulings)) :
    ∀ (j : Nat) (r' : Ruling), (rulings ++ [r])[j]? = some r' →
      r'.Decided (accepted ((rulings ++ [r]).take j)) := by
  intro j r' hj
  rcases Nat.lt_or_ge j rulings.length with hlt | hge
  · rw [List.getElem?_append_left hlt] at hj
    rw [List.take_append_of_le_length (by omega)]
    exact h.decided j r' hj
  · rw [List.getElem?_append_right hge, List.getElem?_singleton] at hj
    split_ifs at hj with hzero
    rw [Option.some.injEq] at hj
    rw [List.take_append_of_le_length (by omega), List.take_of_length_le hge, ← hj]
    exact hr

/-- One more declaration is ruled on after the cells accepted so far. -/
theorem add (h : Accounts rulings s) (decl : Declaration) :
    ∃ fate, Accounts (rulings ++ [⟨decl, fate⟩]) (s.add decl) := by
  have hdecided := s.document.decided_accept decl
  rw [← h.defined_eq, h.cells_eq] at hdecided
  refine ⟨s.document.accept decl s.defined, ?_⟩
  rcases ha : s.document.accept decl s.defined with e | expr
  · obtain ⟨hcells, hdiagnostics, hdefined⟩ := Scan.add_of_error ha
    rw [ha] at hdecided
    refine ⟨?_, ?_, ?_, h.decided_concat hdecided⟩
    · rw [hcells, h.cells_eq, accepted_concat_error]
    · rw [hdiagnostics, h.diagnostics_eq, rejected_concat_error]
    · rw [hdefined, h.defined_eq, Document.names, Document.names, hcells]
  · obtain ⟨hcells, hdiagnostics, hdefined⟩ := Scan.add_of_ok ha
    rw [ha] at hdecided
    refine ⟨?_, ?_, ?_, h.decided_concat hdecided⟩
    · rw [hcells, h.cells_eq, accepted_concat_ok]
    · rw [hdiagnostics, h.diagnostics_eq, rejected_concat_ok]
    · rw [hdefined, h.defined_eq, Document.names, Document.names, hcells, List.map_append,
        List.map_singleton, Names.ofList_concat]

theorem foldl : ∀ (decls : List Declaration) {rulings : List Ruling} {s : Scan},
    Accounts rulings s → ∃ more : List Ruling, more.map (·.declaration) = decls ∧
      Accounts (rulings ++ more) (decls.foldl Scan.add s)
  | [], rulings, _, h => ⟨[], rfl, by rwa [List.append_nil]⟩
  | decl :: decls, rulings, s, h => by
    obtain ⟨fate, hadd⟩ := h.add decl
    obtain ⟨more, hmore, hfold⟩ := foldl decls hadd
    refine ⟨⟨decl, fate⟩ :: more, by rw [List.map_cons, hmore], ?_⟩
    rwa [List.append_assoc] at hfold

end Accounts

namespace Document

theorem exists_rulings (text : String) : ∃ rulings : List Ruling,
    rulings.map (·.declaration) = Declaration.scan text ∧
      (parse text).cells = accepted rulings ∧ (parse text).diagnostics = rejected rulings ∧
      ∀ (j : Nat) (r : Ruling), rulings[j]? = some r → r.Decided (accepted (rulings.take j)) := by
  obtain ⟨rulings, hmap, hcells, hdiagnostics, -, hdecided⟩ :=
    Accounts.empty.foldl (Declaration.scan text)
  exact ⟨rulings, hmap, hcells, hdiagnostics, hdecided⟩

theorem get?_eq_some_iff {d : Document} {name : String} {cell : Cell} :
    d.get? name = some cell ↔ cell ∈ d.cells ∧ cell.name = name := by
  rw [get?, d.indexed, Option.bind_eq_some_iff]
  constructor
  · rintro ⟨k, hk, hcell⟩
    obtain ⟨hlt, heq, -⟩ := List.findIdx?_eq_some_iff_getElem.1 hk
    rw [List.getElem?_eq_getElem hlt, Option.some.injEq] at hcell
    rw [hcell, beq_iff_eq] at heq
    exact ⟨hcell ▸ List.getElem_mem hlt, heq⟩
  · rintro ⟨hmem, rfl⟩
    rcases hk : d.cells.findIdx? (·.name == cell.name) with _ | k
    · rw [List.findIdx?_eq_none_iff] at hk
      simpa using hk cell hmem
    · obtain ⟨hlt, heq, -⟩ := List.findIdx?_eq_some_iff_getElem.1 hk
      rw [beq_iff_eq] at heq
      refine ⟨k, hk, ?_⟩
      rw [List.getElem?_eq_getElem hlt, eq_of_name_eq (List.getElem_mem hlt) hmem heq]

/-- What becomes of the declarations of a text, and what follows for its cells: their names are
different and valid, the number of a cell is its place, a look-up finds the one cell of a name, and
no cell depends on itself, as it depends on earlier cells only. -/
theorem parse_accounts (text : String) :
    (∃ rulings : List Ruling, rulings.map (·.declaration) = Declaration.scan text ∧
      (parse text).cells = accepted rulings ∧ (parse text).diagnostics = rejected rulings ∧
      ∀ (j : Nat) (r : Ruling), rulings[j]? = some r → r.Decided (accepted (rulings.take j))) ∧
    (parse text).names.Nodup ∧
    (∀ cell ∈ (parse text).cells, (Token.mk cell.name).isIdentifier = true ∧
      (Token.mk cell.name).isKeyword = false) ∧
    (∀ (k : Nat) (cell : Cell), (parse text).cells[k]? = some cell → cell.order = k) ∧
    (∀ name, (parse text).contains name = true ↔ ∃ cell ∈ (parse text).cells, cell.name = name) ∧
    (∀ name cell, (parse text).get? name = some cell ↔
      cell ∈ (parse text).cells ∧ cell.name = name) ∧
    (∀ (k : Nat) (cell : Cell), (parse text).cells[k]? = some cell → ∀ name ∈ cell.dependencies,
      ∃ j < k, ∃ earlier, (parse text).cells[j]? = some earlier ∧ earlier.name = name) ∧
    ∀ cell, ¬ Relation.TransGen (parse text).DependsOn cell cell := by
  refine ⟨exists_rulings text, (accepted_parse text).nodup, fun cell hcell => ?_,
    (accepted_parse text).order_eq, fun name => exists_cell_iff.symm, fun name cell => ?_,
    fun k cell hk name hn => dependencies_earlier hk hn, not_dependsOn_self⟩
  · have hname := (accepted_parse text).isName cell hcell
    rw [Token.isName, Bool.and_eq_true, Bool.not_eq_true'] at hname
    exact hname
  · exact get?_eq_some_iff

end Document

end EstimateSheet
