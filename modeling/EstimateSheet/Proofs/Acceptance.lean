import EstimateSheet.Proofs.CellFormulas
import Mathlib.Data.List.Nodup

/-!
# Accepted cells

`Accepted cells` says that each cell could be declared after those before it: its name is a name and
not taken, and its formula can be read with the names that are there. A document has no other cells
(`Scan.accepted_add`), and declaring the cells of such a list again gives the list and leaves none
out (`Accepted.replay`). So what a document leaves out plays no part in what its cells are.
-/

namespace EstimateSheet

namespace Names

theorem ofList_concat (names : List String) (name : String) :
    ofList (names ++ [name]) = (ofList names).insert name := by
  simp only [ofList, extend, List.foldl_append, List.foldl_cons, List.foldl_nil]

end Names

/-- The declaration that a cell comes from. -/
def Cell.declaration (cell : Cell) : Declaration := ⟨cell.name, cell.formula⟩

/-- Cells each of which is accepted after the ones before it. -/
inductive Accepted : List Cell → Prop where
  | nil : Accepted []
  | concat {cells : List Cell} {decl : Declaration} {expr : Expr} : Accepted cells →
      (Token.mk decl.name).isName = true → decl.name ∉ cells.map (·.name) →
      Parser.parse (.ofList (cells.map (·.name))) decl.formula = .ok expr →
      Accepted (cells ++ [⟨decl.name, decl.formula, expr, cells.length⟩])

namespace Document

theorem accept_eq_ok {d : Document} {decl : Declaration} {defined : Names} {expr : Expr} :
    d.accept decl defined = .ok expr ↔ (Token.mk decl.name).isName = true ∧
      ¬ d.contains decl.name = true ∧ Parser.parse defined decl.formula = .ok expr := by
  constructor
  · intro h
    refine ⟨?_, fresh_of_accept h, parse_of_accept h⟩
    unfold accept at h
    split_ifs at h with hname
    simpa using hname
  · rintro ⟨hname, hfresh, hparse⟩
    unfold accept
    rw [hname, if_neg (by decide), if_neg hfresh, hparse]
    rfl

end Document

namespace Scan

variable {s : Scan} {decl : Declaration}

theorem add_of_ok {expr : Expr} (h : s.document.accept decl s.defined = .ok expr) :
    (s.add decl).document.cells =
        s.document.cells ++ [⟨decl.name, decl.formula, expr, s.document.cells.length⟩] ∧
      (s.add decl).document.diagnostics = s.document.diagnostics ∧
      (s.add decl).defined = s.defined.insert decl.name := by
  refine ⟨cells_add h, ?_⟩
  unfold add
  split
  next => exact ⟨rfl, rfl⟩
  next h' =>
    rw [h] at h'
    cases h'

theorem add_of_error {e : DeclarationError} (h : s.document.accept decl s.defined = .error e) :
    (s.add decl).document.cells = s.document.cells ∧
      (s.add decl).document.diagnostics =
        s.document.diagnostics ++ [⟨decl.name, decl.formula, e⟩] ∧
      (s.add decl).defined = s.defined := by
  unfold add
  split
  next h' =>
    rw [h] at h'
    cases h'
  next h' =>
    rw [h] at h'
    cases h'
    exact ⟨rfl, rfl, rfl⟩

theorem accepted_add (h : Accepted s.document.cells) (hd : s.defined = .ofList s.document.names)
    (decl : Declaration) : Accepted (s.add decl).document.cells ∧
      (s.add decl).defined = .ofList (s.add decl).document.names := by
  rcases ha : s.document.accept decl s.defined with e | expr
  · obtain ⟨hcells, -, hdefined⟩ := add_of_error ha
    rw [Document.names, hcells, hdefined]
    exact ⟨h, hd⟩
  · obtain ⟨hcells, -, hdefined⟩ := add_of_ok ha
    obtain ⟨hname, hfresh, hparse⟩ := Document.accept_eq_ok.1 ha
    rw [Document.contains_iff] at hfresh
    rw [hd] at hparse
    rw [Document.names, hcells, hdefined, hd, List.map_append, List.map_singleton,
      Names.ofList_concat]
    exact ⟨h.concat hname hfresh hparse, rfl⟩

theorem accepted_foldl : ∀ (decls : List Declaration) {s : Scan}, Accepted s.document.cells →
    s.defined = .ofList s.document.names → Accepted (decls.foldl add s).document.cells
  | [], _, h, _ => h
  | decl :: decls, _, h, hd =>
    accepted_foldl decls (accepted_add h hd decl).1 (accepted_add h hd decl).2

/-- What has been scanned has these cells, and nothing has been left out. -/
structure Holds (s : Scan) (cells : List Cell) : Prop where
  cells_eq : s.document.cells = cells
  defined_eq : s.defined = .ofList (cells.map (·.name))
  diagnostics_eq : s.document.diagnostics = []

theorem Holds.add {cells : List Cell} {expr : Expr} (h : s.Holds cells)
    (hname : (Token.mk decl.name).isName = true) (hfresh : decl.name ∉ cells.map (·.name))
    (hparse : Parser.parse (.ofList (cells.map (·.name))) decl.formula = .ok expr) :
    (s.add decl).Holds (cells ++ [⟨decl.name, decl.formula, expr, cells.length⟩]) := by
  obtain ⟨hcells, hdefined, hdiagnostics⟩ := h
  have ha : s.document.accept decl s.defined = .ok expr := by
    refine Document.accept_eq_ok.2 ⟨hname, ?_, by rw [hdefined, hparse]⟩
    rwa [Document.contains_iff, Document.names, hcells]
  obtain ⟨hcells', hdiagnostics', hdefined'⟩ := add_of_ok ha
  refine ⟨?_, ?_, ?_⟩
  · rw [hcells', hcells]
  · rw [hdefined', hdefined, List.map_append, List.map_singleton, Names.ofList_concat]
  · rw [hdiagnostics', hdiagnostics]

end Scan

/-- The cells of a document are accepted one after the other. -/
theorem Document.accepted_parse (text : String) : Accepted (parse text).cells :=
  Scan.accepted_foldl _ .nil rfl

namespace Accepted

variable {cells : List Cell}

theorem isName (h : Accepted cells) : ∀ cell ∈ cells, (Token.mk cell.name).isName = true := by
  induction h with
  | nil => exact nofun
  | concat _ hname _ _ ih =>
    intro cell hcell
    rcases List.mem_append.1 hcell with hcell | hcell
    · exact ih cell hcell
    · rw [List.mem_singleton.1 hcell]
      exact hname

theorem order_eq (h : Accepted cells) : ∀ (k : Nat) (cell : Cell),
    cells[k]? = some cell → cell.order = k := by
  induction h with
  | nil => exact nofun
  | @concat cells decl expr _ _ _ _ ih =>
    intro k cell hk
    rcases Nat.lt_or_ge k cells.length with hlt | hge
    · rw [List.getElem?_append_left hlt] at hk
      exact ih k cell hk
    · rw [List.getElem?_append_right hge, List.getElem?_singleton] at hk
      split_ifs at hk with hzero
      rw [Option.some.injEq] at hk
      rw [← hk]
      dsimp only
      omega

theorem nodup (h : Accepted cells) : (cells.map (·.name)).Nodup := by
  induction h with
  | nil => exact List.nodup_nil
  | concat _ _ hfresh _ ih =>
    rw [List.map_append, List.map_singleton, ← List.concat_eq_append]
    exact ih.concat hfresh

/-- Declared again, the cells are accepted again. -/
theorem replay (h : Accepted cells) :
    ((cells.map Cell.declaration).foldl Scan.add .empty).Holds cells := by
  induction h with
  | nil => exact ⟨rfl, rfl, rfl⟩
  | concat _ hname hfresh hparse ih =>
    rw [List.map_append, List.foldl_append]
    exact ih.add hname hfresh hparse

theorem ofDeclarations (h : Accepted cells) :
    (Document.ofDeclarations (cells.map Cell.declaration)).cells = cells ∧
      (Document.ofDeclarations (cells.map Cell.declaration)).diagnostics = [] :=
  ⟨h.replay.cells_eq, h.replay.diagnostics_eq⟩

end Accepted

/-- A text whose declarations are those of accepted cells has these cells. -/
theorem Document.cells_parse {text : String} {cells : List Cell} (h : Accepted cells)
    (hscan : Declaration.scan text = cells.map Cell.declaration) : (parse text).cells = cells := by
  rw [parse, hscan]
  exact h.ofDeclarations.1

theorem Parser.parse_uniform (names : Names) :
    parse names "uniform(0, 1)" = .ok (.call "uniform" [.number 0, .number 1]) := by
  have htokens : Token.scan "uniform(0, 1)" =
      .ok [⟨"uniform"⟩, ⟨"("⟩, ⟨"0"⟩, ⟨","⟩, ⟨"1"⟩, ⟨")"⟩] := by decide +kernel
  have h0 : Token.value ⟨"0"⟩ = 0 := by decide +kernel
  have h1 : Token.value ⟨"1"⟩ = 1 := by decide +kernel
  rw [← h0, ← h1]
  exact parse_call htokens (by decide) (by decide) (by decide) ⟨_, rfl, rfl⟩

/-- A text in which cells that draw random words stand between and after others. -/
theorem Document.cells_parse_uniform :
    (parse "[k = 2]\n[u = uniform(0, 1)]\n[b = k]\n[v = uniform(0, 1)]").cells =
      [⟨"k", "2", .number 2, 0⟩,
        ⟨"u", "uniform(0, 1)", .call "uniform" [.number 0, .number 1], 1⟩,
        ⟨"b", "k", .reference "k", 2⟩,
        ⟨"v", "uniform(0, 1)", .call "uniform" [.number 0, .number 1], 3⟩] := by
  have h2 : Token.value ⟨"2"⟩ = 2 := by decide +kernel
  have htwo : Parser.parse (.ofList []) "2" = .ok (.number 2) :=
    h2 ▸ Parser.parse_number (t := ⟨"2"⟩) (by decide +kernel) (by decide)
  have hb : Parser.parse (.ofList ["k", "u"]) "k" = .ok (.reference "k") :=
    Parser.parse_reference (t := ⟨"k"⟩) (by decide +kernel) (by decide) (by decide)
  have hk := @Accepted.concat [] ⟨"k", "2"⟩ _ .nil (by decide) (by decide) htwo
  have hu := @Accepted.concat _ ⟨"u", "uniform(0, 1)"⟩ _ hk (by decide) (by decide)
    (Parser.parse_uniform _)
  have hb := @Accepted.concat _ ⟨"b", "k"⟩ _ hu (by decide) (by decide) hb
  have hv := @Accepted.concat _ ⟨"v", "uniform(0, 1)"⟩ _ hb (by decide) (by decide)
    (Parser.parse_uniform _)
  exact cells_parse hv (by decide +kernel)

end EstimateSheet
