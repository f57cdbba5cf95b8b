import EstimateSheet.Proofs.Accounting
import EstimateSheet.Proofs.Concatenation
import EstimateSheet.Proofs.OrderedChoice

/-!
# Declarations by a pattern

The declarations can also be described by a pattern with two groups, one for the name and one for
the formula, of which the matches are found from left to right without overlap. Blanks can be
matched before the formula or as a part of it. They are matched before it, but the last one is given
back where there is nothing else (`head?_formula`), and then it is trimmed away. So the groups found
are the declarations that scanning finds (`map_ofGroups_findAll`), and each of these becomes a cell
or a diagnostic (`Document.parse_declares`).
-/

namespace EstimateSheet

/-- A pattern with groups: what the groups hold and the text that is left, for each match in the
order in which they are tried. -/
abbrev GroupMatcher := List Char → List (List (List Char) × List Char)

namespace Matcher

/-- The pattern without a group. -/
def plain (m : Matcher) : GroupMatcher := fun cs => (m cs).map fun n => ([], cs.drop n)

/-- The pattern as a group. It holds what is matched. -/
def group (m : Matcher) : GroupMatcher := fun cs => (m cs).map fun n => ([cs.take n], cs.drop n)

end Matcher

/-- The declaration that two groups stand for. -/
def Declaration.ofGroups (groups : List (List Char)) : Declaration :=
  ⟨String.ofList (groups.getD 0 []), String.ofList (Text.trimEnd (groups.getD 1 []))⟩

namespace GroupMatcher

open Matcher

/-- One pattern and then another. For each match of the first all those of the second are tried. -/
def andThen (m m' : GroupMatcher) : GroupMatcher := fun cs =>
  (m cs).flatMap fun found => (m' found.2).map fun next => (found.1 ++ next.1, next.2)

/-- From left to right, the first match at each place where there is one. The count is of the
characters that the last match still takes. -/
def findAll (m : GroupMatcher) : Nat → List Char → List (List (List Char))
  | _, [] => []
  | taken + 1, _ :: cs => findAll m taken cs
  | 0, c :: cs =>
    match (m (c :: cs)).head? with
    | some (groups, rest) => groups :: findAll m (cs.length - rest.length) cs
    | none => findAll m 0 cs

/-- Something that goes on to the next closing bracket. -/
def closed : GroupMatcher :=
  (atLeastOne (· != ']')).group.andThen (one (· == ']')).plain

/-- The sign and a formula. -/
def signed : GroupMatcher :=
  (one (· == '=')).plain.andThen ((many Text.isBlank).plain.andThen closed)

/-- The declarations, with groups for the name and for the formula. -/
def declaration : GroupMatcher :=
  (one (· == '[')).plain.andThen <|
    (atLeastOne Text.isWord).group.andThen ((many Text.isBlank).plain.andThen signed)

section Rules

variable {p : Char → Bool} {m : GroupMatcher} {c : Char} {cs : List Char}

theorem findAll_eq_drop : ∀ (taken : Nat) (cs : List Char),
    findAll m taken cs = findAll m 0 (cs.drop taken)
  | 0, _ => rfl
  | _ + 1, [] => rfl
  | taken + 1, _ :: cs => by
    rw [findAll, List.drop_succ_cons]
    exact findAll_eq_drop taken cs

theorem findAll_of_suffix {rest : List Char} (h : rest <:+ cs) :
    findAll m (cs.length - rest.length) cs = findAll m 0 rest := by
  rw [findAll_eq_drop, ← List.suffix_iff_eq_drop.1 h]

theorem plain_one_andThen :
    (one p).plain.andThen m (c :: cs) = if p c then m cs else [] := by
  rw [andThen, plain, one_cons]
  split_ifs <;> simp

theorem drop_length_takeWhile (p : Char → Bool) (cs : List Char) :
    cs.drop (cs.takeWhile p).length = cs.dropWhile p :=
  calc cs.drop (cs.takeWhile p).length
      = (cs.takeWhile p ++ cs.dropWhile p).drop (cs.takeWhile p).length := by
        rw [List.takeWhile_append_dropWhile]
    _ = cs.dropWhile p := List.drop_left

/-- Giving back characters is of no use if the next pattern does not begin with one of them. -/
theorem eq_nil_of_fewer (h : ∀ c cs, p c = true → m (c :: cs) = []) {n : Nat}
    (hn : n < (cs.takeWhile p).length) : m (cs.drop n) = [] := by
  have hlen := hn.trans_le (List.takeWhile_prefix p).length_le
  rw [List.drop_eq_getElem_cons hlen]
  refine h _ _ ?_
  rw [← (List.takeWhile_prefix p).getElem hn]
  exact List.mem_takeWhile_imp (List.getElem_mem hn)

theorem plain_many_andThen_eq (m : GroupMatcher) (cs : List Char) :
    (many p).plain.andThen m cs = m (cs.dropWhile p) ++
      (List.range (cs.takeWhile p).length).reverse.flatMap fun n => m (cs.drop n) := by
  have hplain : ∀ found : List (List (List Char) × List Char),
      found.map (fun next => (([] : List (List Char)) ++ next.1, next.2)) = found := List.map_id
  simp only [andThen, plain, many_eq, List.flatMap_map, List.flatMap_cons, drop_length_takeWhile,
    hplain]

/-- As many characters as there are, if the next pattern does not begin with one of them. -/
theorem plain_many_andThen (h : ∀ c cs, p c = true → m (c :: cs) = []) :
    (many p).plain.andThen m cs = m (cs.dropWhile p) := by
  have hnone : ((List.range (cs.takeWhile p).length).reverse.flatMap fun n => m (cs.drop n)) = [] :=
    List.flatMap_eq_nil_iff.2 fun n hn =>
      eq_nil_of_fewer h (List.mem_range.1 (List.mem_reverse.1 hn))
  rw [plain_many_andThen_eq, hnone, List.append_nil]

theorem atLeastOne_of_nil (h : cs.takeWhile p = []) : atLeastOne p cs = [] := by
  rcases cs with _ | ⟨c, cs⟩
  · rfl
  · rw [List.takeWhile_cons] at h
    split_ifs at h with hc
    rw [atLeastOne, followedBy, one_cons, if_neg hc, List.flatMap_nil]

theorem atLeastOne_of_ne_nil (h : cs.takeWhile p ≠ []) : ∃ fewer,
    atLeastOne p cs = (cs.takeWhile p).length :: fewer ∧
      ∀ n ∈ fewer, n < (cs.takeWhile p).length := by
  rcases cs with _ | ⟨c, cs⟩
  · exact absurd rfl h
  · rw [List.takeWhile_cons] at h ⊢
    split_ifs at h ⊢ with hc
    · rw [atLeastOne, followedBy, one_cons, if_pos hc, List.flatMap_singleton, List.drop_one,
        List.tail_cons, many_eq, List.map_cons, List.length_cons, Nat.add_comm 1]
      refine ⟨_, rfl, fun n hn => ?_⟩
      obtain ⟨k, hk, rfl⟩ := List.mem_map.1 hn
      have hlt := List.mem_range.1 (List.mem_reverse.1 hk)
      omega
    · exact absurd rfl h

theorem group_atLeastOne_andThen (h : ∀ c cs, p c = true → m (c :: cs) = []) :
    (atLeastOne p).group.andThen m cs = if cs.takeWhile p = [] then []
      else (m (cs.dropWhile p)).map fun next => (cs.takeWhile p :: next.1, next.2) := by
  split_ifs with hnil
  · rw [andThen, group, atLeastOne_of_nil hnil, List.map_nil, List.flatMap_nil]
  · obtain ⟨fewer, heq, hfewer⟩ := atLeastOne_of_ne_nil hnil
    have hnone : (fewer.flatMap fun n => (m (cs.drop n)).map fun next =>
        ([cs.take n] ++ next.1, next.2)) = [] :=
      List.flatMap_eq_nil_iff.2 fun n hn => by rw [eq_nil_of_fewer h (hfewer n hn), List.map_nil]
    rw [andThen, group, heq, List.flatMap_map, List.flatMap_cons, hnone, List.append_nil,
      drop_length_takeWhile, ← List.prefix_iff_eq_take.1 (List.takeWhile_prefix p)]
    rfl

end Rules

section Declarations

variable {c : Char} {cs : List Char}

theorem closing_eq_nil (h : (c != ']') = true) (cs : List Char) :
    (one (· == ']')).plain (c :: cs) = [] := by
  rw [plain, one_cons, if_neg (by simpa using h), List.map_nil]

theorem closed_append {formula : List Char} (hformula : ∀ c ∈ formula, (c != ']') = true)
    (rest : List Char) : closed (formula ++ ']' :: rest) =
      if formula = [] then [] else [([formula], rest)] := by
  have hstop : ∀ c ∈ (']' :: rest).head?, (c != ']') = false := by rintro _ ⟨⟩; rfl
  rw [closed, group_atLeastOne_andThen fun c cs h => closing_eq_nil h cs,
    Token.takeWhile_append hformula hstop, Token.dropWhile_append hformula hstop]
  rfl

theorem closed_of_unclosed (h : ']' ∉ cs) : closed cs = [] := by
  have hall : cs.dropWhile (· != ']') = [] := List.dropWhile_eq_nil_iff.2 fun c hc => by
    rw [bne_iff_ne]
    rintro rfl
    exact h hc
  rw [closed, group_atLeastOne_andThen fun c cs h => closing_eq_nil h cs, hall]
  exact ite_self _

theorem signed_sign (body : List Char) :
    signed ('=' :: body) = (many Text.isBlank).plain.andThen closed body := by
  rw [signed, plain_one_andThen, if_pos (by rfl)]

theorem signed_of_ne (h : c ≠ '=') (cs : List Char) : signed (c :: cs) = [] := by
  rw [signed, plain_one_andThen, if_neg (by simpa using h)]

theorem ne_of_isBlank (h : Text.isBlank c = true) : c ≠ '=' := by
  rintro rfl
  cases h

theorem plain_many_closed_of_unclosed (h : ']' ∉ cs) :
    (many Text.isBlank).plain.andThen closed cs = [] := by
  rw [plain_many_andThen_eq, List.append_eq_nil_iff, List.flatMap_eq_nil_iff]
  exact ⟨closed_of_unclosed fun hmem => h ((List.dropWhile_suffix _).mem hmem),
    fun n _ => closed_of_unclosed fun hmem => h (List.mem_of_mem_drop hmem)⟩

theorem plain_many_closed_nil (rest : List Char) :
    (many Text.isBlank).plain.andThen closed (']' :: rest) = [] := rfl

/-- The blanks before a formula are no part of it, unless there is nothing else. Then the last of
them is given back to be the formula. -/
theorem head?_formula {formula : List Char} (hne : formula ≠ [])
    (hformula : ∀ c ∈ formula, (c != ']') = true) (rest : List Char) : ∃ taken,
    ((many Text.isBlank).plain.andThen closed (formula ++ ']' :: rest)).head? =
      some ([taken], rest) ∧
    Text.trimEnd taken = Text.trimEnd (Text.trimStart formula) := by
  rw [plain_many_andThen_eq, List.head?_append]
  by_cases hblank : ∀ c ∈ formula, Text.isBlank c = true
  · have hstop : ∀ c ∈ (']' :: rest).head?, Text.isBlank c = false := by rintro _ ⟨⟩; rfl
    have hstart : Text.trimStart formula = [] := List.dropWhile_eq_nil_iff.2 hblank
    rw [Token.takeWhile_append hblank hstop, Token.dropWhile_append hblank hstop, hstart]
    -- with all the blanks taken nothing is left for the formula
    obtain ⟨before, last, rfl⟩ := (List.eq_nil_or_concat formula).resolve_left hne
    rw [List.concat_eq_append] at *
    have hlast : last ∈ before ++ [last] := by simp
    refine ⟨[last], ?_, ?_⟩
    · rw [List.length_append, List.length_singleton, List.range_succ, List.reverse_append,
        List.reverse_singleton, List.singleton_append, List.flatMap_cons, List.append_assoc,
        List.drop_left, closed_append (List.forall_mem_singleton.2 (hformula last hlast))]
      rfl
    · rw [Text.trimEnd, List.reverse_singleton, List.dropWhile_cons_of_pos (hblank last hlast)]
      rfl
  · push Not at hblank
    obtain ⟨c, hc, hblank⟩ := hblank
    refine ⟨Text.trimStart formula, ?_, rfl⟩
    rw [dropWhile_append_of_mem hc (by simpa using hblank), ← Text.trimStart, closed_append, if_neg]
    · rfl
    · exact List.ne_nil_of_mem (mem_dropWhile_of_mem hc (by simpa using hblank))
    · exact fun d hd => hformula d ((List.dropWhile_suffix _).mem hd)

theorem declaration_bracket (cs : List Char) : declaration ('[' :: cs) =
    if cs.takeWhile Text.isWord = [] then []
    else (signed (Text.trimStart (cs.dropWhile Text.isWord))).map fun next =>
      (cs.takeWhile Text.isWord :: next.1, next.2) := by
  have hsigned : ∀ cs, (many Text.isBlank).plain.andThen signed cs = signed (Text.trimStart cs) :=
    fun cs => plain_many_andThen fun c cs h => signed_of_ne (ne_of_isBlank h) cs
  rw [declaration, plain_one_andThen, if_pos (by rfl), group_atLeastOne_andThen, hsigned]
  intro c cs hc
  have hblank : Text.isBlank c = false := Bool.eq_false_iff.2 fun h => by
    rw [Text.isWord_eq_false_of_isBlank h] at hc
    cases hc
  rw [hsigned, Text.trimStart, List.dropWhile_cons_of_neg (by rw [hblank]; decide)]
  refine signed_of_ne ?_ cs
  rintro rfl
  cases hc

theorem declaration_of_ne (h : c ≠ '[') (cs : List Char) : declaration (c :: cs) = [] := by
  rw [declaration, plain_one_andThen, if_neg (by simpa using h)]

/-- The first match of the pattern is the declaration that is read after an opening bracket. -/
theorem head?_declaration (cs : List Char) :
    (declaration ('[' :: cs)).head?.map (fun found => (Declaration.ofGroups found.1, found.2)) =
      Declaration.afterBracket? cs := by
  rw [declaration_bracket, Declaration.afterBracket?]
  generalize cs.takeWhile Text.isWord = name
  rcases Text.trimStart (cs.dropWhile Text.isWord) with _ | ⟨sign, body⟩
  · split_ifs <;> rfl
  by_cases hsign : sign = '='
  · subst hsign
    simp only [signed_sign]
    have hformula : ∀ c ∈ body.takeWhile (· != ']'), (c != ']') = true := by
      intro c hc
      simpa using List.mem_takeWhile_imp hc
    have hsplit : body.takeWhile (· != ']') ++ body.dropWhile (· != ']') = body :=
      List.takeWhile_append_dropWhile
    generalize body.takeWhile (· != ']') = formula at hformula hsplit ⊢
    rcases hrest : body.dropWhile (· != ']') with _ | ⟨closing, rest⟩
    · have hunclosed : ']' ∉ body := by
        rw [← hsplit, hrest, List.append_nil]
        exact fun hmem => by simpa using hformula _ hmem
      rw [plain_many_closed_of_unclosed hunclosed, List.map_nil, ite_self]
      rfl
    · obtain ⟨-, hclosing⟩ := Declaration.eq_append_of_dropWhile_eq_cons hrest
      obtain rfl : closing = ']' := by simpa using hclosing
      rw [← hsplit, hrest]
      by_cases hname : name = []
      · simp [hname]
      by_cases hne : formula = []
      · simp [hne, plain_many_closed_nil]
      obtain ⟨taken, hhead, htrim⟩ := head?_formula hne hformula rest
      simp [hname, hne, List.head?_map, hhead, Declaration.ofGroups, htrim]
  · rw [signed_of_ne hsign]
    simp [hsign]

theorem map_ofGroups_findAll (cs : List Char) :
    (declaration.findAll 0 cs).map Declaration.ofGroups = Declaration.scanChars cs := by
  fun_induction Declaration.scanChars cs with
  | case1 => rfl
  | case2 cs d rest hd _ ih =>
    have hhead := head?_declaration cs
    rw [hd, Option.map_eq_some_iff] at hhead
    obtain ⟨⟨groups, rest'⟩, hhead, heq⟩ := hhead
    obtain ⟨rfl, rfl⟩ := Prod.mk.inj heq
    rw [findAll, hhead]
    dsimp only
    rw [findAll_of_suffix (Declaration.suffix_of_afterBracket? hd), List.map_cons, ih]
  | case3 cs hd ih =>
    have hhead := head?_declaration cs
    rw [hd, Option.map_eq_none_iff] at hhead
    rw [findAll, hhead]
    exact ih
  | case4 c cs hc ih =>
    rw [findAll, declaration_of_ne hc]
    exact ih

-- a blank formula, two signs, a formula over two lines with a bracket in it, and an open end
example : (declaration.findAll 0 "[a = ] [b == 1] [c =\n[1\n+ 2] [d = 3".toList).map
    Declaration.ofGroups = [⟨"a", ""⟩, ⟨"b", "= 1"⟩, ⟨"c", "[1\n+ 2"⟩] := by decide +kernel

end Declarations

end GroupMatcher

open Ruling

/-- There is nothing to read in an empty formula. -/
theorem Parser.parse_empty (names : Names) :
    parse names "" = .error (.malformed .endOfInput) := by
  have hscan : Token.scan "" = .ok [] := Token.scanChars_nil
  rw [parse, hscan]
  change parseTokens names [] = _
  rw [parseTokens, expression, if_neg (by decide)]
  simp only [Operator.topLevel, chain, factor]
  rfl

theorem Ruling.Decided.exists_error {earlier : List Cell} {r : Ruling} (h : r.Decided earlier)
    (hempty : r.declaration.formula = "") : ∃ e, r.fate = .error e := by
  rcases hname : (Token.mk r.declaration.name).isName with _ | _
  · exact ⟨_, h.invalidName.2 (Token.isName_eq_false.1 hname)⟩
  by_cases htaken : ∃ cell ∈ earlier, cell.name = r.declaration.name
  · exact ⟨_, h.duplicate.2 ⟨hname, htaken⟩⟩
  · have hfate := h.formula hname fun cell hcell heq => htaken ⟨cell, hcell, heq⟩
    rw [hempty, Parser.parse_empty] at hfate
    exact ⟨_, hfate⟩

namespace Document

/-- The declarations of a text, which become its cells and diagnostics, are what a search from left
to right comes to, and what the pattern finds. Their names are words, and their formulas have no
closing bracket in them and no blanks around them. Where the formula is empty, the declaration is
left out. Whatever is of that form can stand in a text. -/
theorem parse_declares (text : String) : ∃ rulings : List Ruling,
    (parse text).cells = accepted rulings ∧ (parse text).diagnostics = rejected rulings ∧
    (∀ ds, Declaration.Declares text.toList ds ↔ ds = rulings.map (·.declaration)) ∧
    (GroupMatcher.declaration.findAll 0 text.toList).map Declaration.ofGroups =
      rulings.map (·.declaration) ∧
    (∀ r ∈ rulings, r.declaration.WellFormed ∧
      (r.declaration.formula = "" → ∃ e, r.fate = .error e)) ∧
    ∀ d : Declaration, d.WellFormed →
      Declaration.scan (d.written ++ text) = d :: rulings.map (·.declaration) := by
  obtain ⟨rulings, hscan, hcells, hdiagnostics, hdecided⟩ := exists_rulings text
  refine ⟨rulings, hcells, hdiagnostics, fun ds => ?_, ?_, fun r hr => ⟨?_, fun hempty => ?_⟩,
    fun d hd => ?_⟩
  · rw [hscan]
    exact Declaration.declares_iff
  · rw [hscan]
    exact GroupMatcher.map_ofGroups_findAll text.toList
  · have hmem : r.declaration ∈ Declaration.scan text := hscan ▸ List.mem_map_of_mem hr
    exact Declaration.wellFormed_of_mem_scan _ hmem
  · obtain ⟨j, hj⟩ := List.mem_iff_getElem?.1 hr
    exact (hdecided j r hj).exists_error hempty
  · have hbegins := Declaration.begins_of_wellFormed hd text.toList
    rw [hscan, Declaration.scan, Declaration.scan, ← hbegins.scanChars_eq]
    simp [Declaration.written, String.toList_append]

end Document

end EstimateSheet
