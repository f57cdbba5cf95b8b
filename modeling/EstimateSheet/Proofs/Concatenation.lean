import EstimateSheet.Proofs.WrittenText
import Mathlib.Data.List.Infix

/-!
# Texts that are joined

Whether a declaration begins at an opening bracket is decided before the next closing one
(`afterBracket?_append`). So if every opening bracket of a text has a closing one after it, what
follows the text takes no part in its declarations and adds its own (`scanChars_append`). As a
declaration never changes what became of those before it, the cells and the diagnostics of the text
stay where they are (`Document.parse_append`).
-/

namespace EstimateSheet

section Lists

variable {α : Type} {p : α → Bool} {a : α} {as : List α}

/-- What follows a list plays no part in a search that ends in the list. -/
theorem takeWhile_append_of_mem (ha : a ∈ as) (hp : p a = false) (bs : List α) :
    (as ++ bs).takeWhile p = as.takeWhile p := by
  rw [List.takeWhile_append, if_neg]
  intro hlen
  have hall := List.takeWhile_eq_self_iff.1 ((List.takeWhile_prefix p).eq_of_length hlen)
  rw [hall a ha] at hp
  cases hp

theorem dropWhile_append_of_mem (ha : a ∈ as) (hp : p a = false) (bs : List α) :
    (as ++ bs).dropWhile p = as.dropWhile p ++ bs := by
  rw [List.dropWhile_append, if_neg]
  rw [List.isEmpty_iff, List.dropWhile_eq_nil_iff]
  intro hall
  rw [hall a ha] at hp
  cases hp

theorem mem_dropWhile_of_mem (ha : a ∈ as) (hp : p a = false) : a ∈ as.dropWhile p := by
  rw [← List.takeWhile_append_dropWhile (p := p) (l := as), List.mem_append] at ha
  rcases ha with ha | ha
  · rw [List.mem_takeWhile_imp ha] at hp
    cases hp
  · exact ha

end Lists

namespace Declaration

/-- The rest of a text after an opening bracket is read alike whatever comes after it, if it holds a
closing one. -/
theorem afterBracket?_append {cs : List Char} (hc : ']' ∈ cs) (ds : List Char) :
    afterBracket? (cs ++ ds) = (afterBracket? cs).map fun (d, rest) => (d, rest ++ ds) := by
  have hword : ']' ∈ cs.dropWhile Text.isWord := mem_dropWhile_of_mem hc (by decide)
  have hblank : ']' ∈ Text.trimStart (cs.dropWhile Text.isWord) :=
    mem_dropWhile_of_mem hword (by decide)
  unfold afterBracket?
  rw [takeWhile_append_of_mem hc (by decide), dropWhile_append_of_mem hc (by decide),
    Text.trimStart, dropWhile_append_of_mem hword (by decide), ← Text.trimStart]
  generalize Text.trimStart (cs.dropWhile Text.isWord) = after at hblank ⊢
  rcases after with _ | ⟨sign, body⟩
  · cases hblank
  · by_cases hsign : sign = '='
    · subst hsign
      have hbody : ']' ∈ body := by simpa using hblank
      simp only [List.cons_append]
      rw [takeWhile_append_of_mem hbody (by decide), dropWhile_append_of_mem hbody (by decide)]
      rcases hrest : body.dropWhile (· != ']') with _ | ⟨closing, rest⟩
      · have hmem : ']' ∈ body.dropWhile (· != ']') := mem_dropWhile_of_mem hbody (by decide)
        rw [hrest] at hmem
        cases hmem
      · simp only [List.cons_append]
        split <;> rfl
    · simp [hsign]

/-- Every opening bracket has a closing one after it. -/
def Closed (cs : List Char) : Prop := ∀ after, '[' :: after <:+ cs → ']' ∈ after

namespace Closed

variable {cs : List Char}

theorem of_suffix {cs' : List Char} (h : Closed cs) (hs : cs' <:+ cs) : Closed cs' :=
  fun after ha => h after (ha.trans hs)

theorem tail {c : Char} (h : Closed (c :: cs)) : Closed cs := h.of_suffix (List.suffix_cons c cs)

theorem mem (h : Closed ('[' :: cs)) : ']' ∈ cs := h cs List.suffix_rfl

instance (cs : List Char) : Decidable (Closed cs) :=
  decidable_of_iff (∀ rest ∈ cs.tails, rest.head? = some '[' → ']' ∈ rest.tail) <| by
    constructor
    · exact fun h after ha => h _ ((List.mem_tails _ _).2 ha) rfl
    · intro h rest hr hhead
      obtain ⟨after, rfl⟩ := List.head?_eq_some_iff.1 hhead
      exact h after ((List.mem_tails _ _).1 hr)

end Closed

/-- The declarations of a text are followed by those of what comes after it. -/
theorem scanChars_append {cs : List Char} (h : Closed cs) (ds : List Char) :
    scanChars (cs ++ ds) = scanChars cs ++ scanChars ds := by
  fun_induction scanChars cs with
  | case1 => rfl
  | case2 cs d rest hd _ ih =>
    have happ : afterBracket? (cs ++ ds) = some (d, rest ++ ds) := by
      rw [afterBracket?_append h.mem, hd]
      rfl
    rw [List.cons_append, scanChars_of_afterBracket? happ,
      ih (h.tail.of_suffix (suffix_of_afterBracket? hd))]
    rfl
  | case3 cs hd ih =>
    have happ : afterBracket? (cs ++ ds) = none := by
      rw [afterBracket?_append h.mem, hd]
      rfl
    rw [List.cons_append, scanChars_of_none happ, ih h.tail]
  | case4 c cs hc ih => rw [List.cons_append, scanChars_of_ne hc, ih h.tail]

end Declaration

namespace Scan

/-- What has become of the declarations so far does not change with one more. -/
theorem prefix_add (s : Scan) (decl : Declaration) :
    s.document.cells <+: (s.add decl).document.cells ∧
      s.document.diagnostics <+: (s.add decl).document.diagnostics := by
  rcases ha : s.document.accept decl s.defined with e | expr
  · obtain ⟨hcells, hdiagnostics, -⟩ := add_of_error ha
    rw [hcells, hdiagnostics]
    exact ⟨List.prefix_rfl, List.prefix_append ..⟩
  · obtain ⟨hcells, hdiagnostics, -⟩ := add_of_ok ha
    rw [hcells, hdiagnostics]
    exact ⟨List.prefix_append .., List.prefix_rfl⟩

theorem prefix_foldl : ∀ (decls : List Declaration) (s : Scan),
    s.document.cells <+: (decls.foldl add s).document.cells ∧
      s.document.diagnostics <+: (decls.foldl add s).document.diagnostics
  | [], _ => ⟨List.prefix_rfl, List.prefix_rfl⟩
  | decl :: decls, s => by
    obtain ⟨hcells, hdiagnostics⟩ := prefix_add s decl
    obtain ⟨hcells', hdiagnostics'⟩ := prefix_foldl decls (s.add decl)
    exact ⟨hcells.trans hcells', hdiagnostics.trans hdiagnostics'⟩

end Scan

namespace Document

/-- If every opening bracket of a text has a closing one after it, a text that follows adds its
declarations to those of the text, whose cells and diagnostics stay the first ones. A text without
declarations that follows leaves the document as it is. -/
theorem parse_append {text : String} (h : Declaration.Closed text.toList) (more : String) :
    Declaration.scan (text ++ more) = Declaration.scan text ++ Declaration.scan more ∧
      (parse text).cells <+: (parse (text ++ more)).cells ∧
      (parse text).diagnostics <+: (parse (text ++ more)).diagnostics ∧
      (Declaration.scan more = [] → parse (text ++ more) = parse text) := by
  have hscan : Declaration.scan (text ++ more) =
      Declaration.scan text ++ Declaration.scan more := by
    rw [Declaration.scan, String.toList_append, Declaration.scanChars_append h]
    rfl
  have hfold := Scan.prefix_foldl (Declaration.scan more)
    ((Declaration.scan text).foldl Scan.add .empty)
  rw [← List.foldl_append, ← hscan] at hfold
  refine ⟨hscan, hfold.1, hfold.2, fun hnone => ?_⟩
  rw [parse, hscan, hnone, List.append_nil, parse]

/-- A bracket that begins no declaration, one inside a formula, and a text that goes on right after
the last one. -/
theorem parse_append_nested :
    Declaration.Closed "[ [a = 1] or [b = a + [2]".toList ∧
      Declaration.scan "[ [a = 1] or [b = a + [2]] = 3] [c = a]" =
        [⟨"a", "1"⟩, ⟨"b", "a + [2"⟩, ⟨"c", "a"⟩] ∧
      (parse "[ [a = 1] or [b = a + [2]").cells <+:
        (parse "[ [a = 1] or [b = a + [2]] = 3] [c = a]").cells ∧
      (parse "[ [a = 1] or [b = a + [2]").diagnostics <+:
        (parse "[ [a = 1] or [b = a + [2]] = 3] [c = a]").diagnostics ∧
      parse "[ [a = 1] or [b = a + [2]] = 3 [c" = parse "[ [a = 1] or [b = a + [2]" := by
  have hclosed : Declaration.Closed "[ [a = 1] or [b = a + [2]".toList := by decide
  obtain ⟨hscan, hcells, hdiagnostics, -⟩ := parse_append hclosed "] = 3] [c = a]"
  have hsame := (parse_append hclosed "] = 3 [c").2.2.2 (by decide +kernel)
  have htext : Declaration.scan "[ [a = 1] or [b = a + [2]" ++ Declaration.scan "] = 3] [c = a]" =
      [⟨"a", "1"⟩, ⟨"b", "a + [2"⟩, ⟨"c", "a"⟩] := by decide +kernel
  exact ⟨hclosed, hscan.trans htext, hcells, hdiagnostics, hsame⟩

end Document

end EstimateSheet
