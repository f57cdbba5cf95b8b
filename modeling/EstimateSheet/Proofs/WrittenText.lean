import EstimateSheet.Proofs.Acceptance
import EstimateSheet.Proofs.Declares
import Mathlib.Data.List.DropRight

/-!
# Written documents

A declaration that a text contains is of a certain form: its name is made of word characters, and
its formula has no blanks around it and no closing bracket in it (`wellFormed_of_mem_scan`).
Declarations of that form, written one to a line, are found again as they are (`scan_lines`). So the
cells of a document can be written out and read back, without what the document left out
(`parse_written`).
-/

namespace EstimateSheet

theorem Text.trim_trim (cs : List Char) :
    trimEnd (trimStart (trimEnd (trimStart cs))) = trimEnd (trimStart cs) := by
  have hinit : trimEnd (trimStart cs) <+: trimStart cs := List.rdropWhile_prefix ..
  have hstart : trimStart (trimEnd (trimStart cs)) = trimEnd (trimStart cs) := by
    refine List.dropWhile_eq_self_iff.2 fun hpos => ?_
    rw [hinit.getElem hpos]
    exact List.dropWhile_get_zero_not isBlank cs _
  rw [hstart]
  exact List.rdropWhile_idempotent ..

namespace Declaration

/-- The form that a declaration has if a text contains it. -/
structure WellFormed (d : Declaration) : Prop where
  name_ne_nil : d.name.toList ≠ []
  isWord_of_mem : ∀ c ∈ d.name.toList, Text.isWord c = true
  ne_of_mem : ∀ c ∈ d.formula.toList, c ≠ ']'
  trimmed : Text.trimEnd (Text.trimStart d.formula.toList) = d.formula.toList

theorem wellFormed_of_begins {text rest : List Char} {d : Declaration} (h : Begins text d rest) :
    d.WellFormed := by
  obtain @⟨name, blanks, formula, rest, hne, hname, -, -, -, hformula⟩ := h
  refine ⟨?_, ?_, ?_, ?_⟩
  · rwa [String.toList_ofList]
  · rwa [String.toList_ofList]
  · intro c hc
    rw [String.toList_ofList] at hc
    have hstart := (List.rdropWhile_prefix Text.isBlank _).subset hc
    exact hformula c ((List.dropWhile_sublist Text.isBlank).subset hstart)
  · rw [String.toList_ofList]
    exact Text.trim_trim formula

theorem wellFormed_of_mem_scan {text : String} : ∀ d ∈ scan text, d.WellFormed := by
  unfold scan
  fun_induction scanChars text.toList with
  | case1 => exact fun d hd => absurd hd List.not_mem_nil
  | case2 cs d rest h _ ih =>
    intro d' hd
    rcases List.mem_cons.1 hd with rfl | hd
    · exact wellFormed_of_begins (begins_of_afterBracket? h)
    · exact ih d' hd
  | case3 cs h ih => exact ih
  | case4 c cs h ih => exact ih

/-- A declaration as it is written in a text. -/
def written (d : Declaration) : String := "[" ++ d.name ++ " = " ++ d.formula ++ "]"

/-- Declarations, each on a line of its own. -/
def lines : List Declaration → String
  | [] => ""
  | d :: ds => d.written ++ "\n" ++ lines ds

theorem toList_lines_cons (d : Declaration) (ds : List Declaration) : (lines (d :: ds)).toList =
    '[' :: (d.name.toList ++ ' ' :: '=' :: ' ' ::
      (d.formula.toList ++ ']' :: '\n' :: (lines ds).toList)) := by
  simp [lines, written, String.toList_append]

theorem begins_of_wellFormed {d : Declaration} (h : d.WellFormed) (rest : List Char) :
    Begins ('[' :: (d.name.toList ++ ' ' :: '=' :: ' ' :: (d.formula.toList ++ ']' :: rest)))
      d rest := by
  have hformula : ∀ c ∈ ' ' :: d.formula.toList, c ≠ ']' := by
    intro c hc
    rcases List.mem_cons.1 hc with rfl | hc
    · decide
    · exact h.ne_of_mem c hc
  have htrim : Text.trimEnd (Text.trimStart (' ' :: d.formula.toList)) = d.formula.toList :=
    h.trimmed
  have hbegins := @Begins.intro d.name.toList [' '] (' ' :: d.formula.toList) rest h.name_ne_nil
    h.isWord_of_mem (List.forall_mem_singleton.2 rfl) (by rintro _ ⟨⟩; rfl) (List.cons_ne_nil _ _)
    hformula
  rwa [htrim, String.ofList_toList, String.ofList_toList] at hbegins

theorem scan_lines : ∀ {ds : List Declaration}, (∀ d ∈ ds, d.WellFormed) → scan (lines ds) = ds
  | [], _ => by
    rw [scan, lines]
    exact scanChars.eq_1
  | d :: ds, h => by
    have hd := begins_of_wellFormed (h d List.mem_cons_self) ('\n' :: (lines ds).toList)
    have hds := scan_lines fun d' hd' => h d' (List.mem_cons_of_mem d hd')
    rw [scan, toList_lines_cons, hd.scanChars_eq, scanChars_of_ne (by decide)]
    rw [scan] at hds
    rw [hds]

end Declaration

/-- The cells that scanning adds come from some of the declarations, in order. -/
theorem Scan.exists_cells_foldl : ∀ (decls : List Declaration) (s : Scan), ∃ cells,
    (decls.foldl add s).document.cells = s.document.cells ++ cells ∧
      (cells.map Cell.declaration).Sublist decls
  | [], _ => ⟨[], (List.append_nil _).symm, List.Sublist.slnil⟩
  | decl :: decls, s => by
    obtain ⟨cells, hcells, hsub⟩ := exists_cells_foldl decls (s.add decl)
    rw [List.foldl_cons, hcells]
    rcases ha : s.document.accept decl s.defined with e | expr
    · refine ⟨cells, by rw [(add_of_error ha).1], hsub.cons _⟩
    · refine ⟨_ :: cells, by rw [(add_of_ok ha).1, List.append_assoc]; rfl, ?_⟩
      exact hsub.cons_cons decl

namespace Document

/-- The text that declares the cells of a document, one to a line. -/
def written (d : Document) : String := Declaration.lines (d.cells.map Cell.declaration)

theorem sublist_scan (text : String) :
    ((parse text).cells.map Cell.declaration).Sublist (Declaration.scan text) := by
  obtain ⟨cells, hcells, hsub⟩ := Scan.exists_cells_foldl (Declaration.scan text) .empty
  rw [show (parse text).cells = cells from hcells]
  exact hsub

/-- The written cells of a document are declared again, as the same cells, and nothing is left out.
What the document left out is not in that text, and so has had no part in them. -/
theorem parse_written (text : String) :
    Declaration.scan (parse text).written = (parse text).cells.map Cell.declaration ∧
      (parse (parse text).written).cells = (parse text).cells ∧
      (parse (parse text).written).diagnostics = [] := by
  have hscan : Declaration.scan (parse text).written =
      (parse text).cells.map Cell.declaration := by
    refine Declaration.scan_lines fun d hd => ?_
    exact Declaration.wellFormed_of_mem_scan d ((sublist_scan text).subset hd)
  have hreplay := (accepted_parse text).ofDeclarations
  rw [← hscan] at hreplay
  exact ⟨hscan, hreplay⟩

end Document

end EstimateSheet
