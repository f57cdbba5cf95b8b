import EstimateSheet.Formula.Parser
import EstimateSheet.Proofs.MaximalMunch

/-!
# The layout of formula text

No lexeme but a run of blanks holds a blank, so a lexeme never goes on past a blank, and neither
does the text that an error reports. Where a text goes on with blanks, the part before them is
therefore scanned as if it stood alone (`scanChars_append_parts`). How many blanks there are between
tokens, and which ones, plays no part (`scan_layout`).
-/

namespace EstimateSheet

namespace Token

/-- What can come after a text without becoming a part of its last lexeme: nothing, or a blank. -/
def Parts (rest : List Char) : Prop := ∀ c ∈ rest.head?, Text.isBlank c = true

theorem isBlank_eq_false_of_isNameChar {c : Char} (h : isNameChar c = true) :
    Text.isBlank c = false := by
  have halphanum : c.isAlphanum = (c.isAlpha || c.isDigit) := rfl
  rw [isNameChar, halphanum, Bool.or_assoc, Bool.or_comm c.isDigit, ← Bool.or_assoc,
    Bool.or_eq_true] at h
  exact h.elim isBlank_eq_false_of_isNameStart isBlank_eq_false_of_isDigit

theorem isBlank_eq_false_of_mem_marks : ∀ text ∈ marks, ∀ c ∈ text.toList,
    Text.isBlank c = false := by
  have hall : (marks.all (·.toList.all (!Text.isBlank ·))) = true := by decide
  simpa only [List.all_eq_true, Bool.not_eq_true'] using hall

theorem IsNumeral.isBlank_eq_false {cs : List Char} (h : IsNumeral cs) : ∀ c ∈ cs,
    Text.isBlank c = false := by
  cases h with
  | digits _ hall => exact fun c hc => isBlank_eq_false_of_isDigit (hall c hc)
  | pointed hw _ hf =>
    intro c hc
    rw [List.mem_append, List.mem_cons] at hc
    rcases hc with hc | rfl | hc
    · exact isBlank_eq_false_of_isDigit (hw c hc)
    · decide
    · exact isBlank_eq_false_of_isDigit (hf c hc)

/-- A lexeme that does not begin with a blank has none. -/
theorem IsLexeme.isBlank_eq_false {c : Char} {cs : List Char} (h : IsLexeme (c :: cs))
    (hc : Text.isBlank c = false) : ∀ d ∈ c :: cs, Text.isBlank d = false := by
  have hkind := h.kind
  simp only [hc, Bool.false_eq_true, if_false] at hkind
  split_ifs at hkind with hname hnumeral
  · exact List.forall_mem_cons.2 ⟨hc, fun d hd => isBlank_eq_false_of_isNameChar (hkind d hd)⟩
  · exact hkind.isBlank_eq_false
  · obtain ⟨text, hmark, heq⟩ := hkind
    rw [← heq]
    exact isBlank_eq_false_of_mem_marks text hmark

/-- A beginning of a text without blanks ends before the first blank. -/
theorem prefix_of_parts {first cs rest : List Char} (hfirst : ∀ c ∈ first, Text.isBlank c = false)
    (hrest : Parts rest) (h : first <+: cs ++ rest) : first <+: cs := by
  rcases List.prefix_or_prefix_of_prefix h (List.prefix_append cs rest) with hle | ⟨more, rfl⟩
  · exact hle
  · rw [List.prefix_append_right_inj] at h
    rcases more with _ | ⟨c, more⟩
    · simp
    · obtain ⟨rest', rfl⟩ := h
      have hblank := hrest c rfl
      rw [hfirst c (by simp)] at hblank
      cases hblank

section Seam

variable {c : Char} {cs rest : List Char} (hc : Text.isBlank c = false) (hrest : Parts rest)

include hc hrest

/-- The lexemes at the start of a text that begins with no blank are those of its part before a
blank. -/
theorem IsLexeme.prefix_append_iff {first : List Char} (h : IsLexeme first) :
    first <+: c :: cs ++ rest ↔ first <+: c :: cs := by
  refine ⟨fun hb => ?_, fun hb => hb.trans (List.prefix_append _ _)⟩
  rcases first with _ | ⟨d, more⟩
  · exact absurd rfl h.ne_nil
  · obtain ⟨rfl, -⟩ := List.cons_prefix_cons.1 hb
    exact prefix_of_parts (h.isBlank_eq_false hc) hrest hb

theorem LongestLexeme.append {first : List Char} (h : LongestLexeme first (c :: cs)) :
    LongestLexeme first (c :: cs ++ rest) where
  isLexeme := h.isLexeme
  begins := (h.isLexeme.prefix_append_iff hc hrest).2 h.begins
  longest other ho hb := h.longest other ho ((ho.prefix_append_iff hc hrest).1 hb)

omit hc in
theorem takeWhile_append_parts :
    (cs ++ rest).takeWhile (!Text.isBlank ·) = cs.takeWhile (!Text.isBlank ·) := by
  have hnil : rest.takeWhile (!Text.isBlank ·) = [] := by
    rcases rest with _ | ⟨d, rest⟩
    · rfl
    · simp [hrest d rfl]
  rw [List.takeWhile_append, hnil]
  split_ifs with hlen
  · rw [List.append_nil]
    exact ((List.takeWhile_prefix _).eq_of_length hlen).symm
  · rfl

/-- Where no lexeme begins the same text is reported. -/
theorem scanChars_append_of_none (hnone : ∀ first, IsLexeme first → ¬ first <+: c :: cs) :
    scanChars (c :: cs ++ rest) = scanChars (c :: cs) := by
  have hnone' : ∀ first, IsLexeme first → ¬ first <+: c :: cs ++ rest := fun first h hb =>
    hnone first h ((h.prefix_append_iff hc hrest).1 hb)
  rw [(Munches.stop hnone).scanChars_eq, (Munches.stop hnone').scanChars_eq, outcome, outcome,
    takeWhile_append_parts hrest]
  rfl

end Seam

/-- A text that ends or goes on with a blank is scanned as if it stood alone, and then what follows
it. -/
theorem scanChars_append_parts {rest : List Char} (hrest : Parts rest) : ∀ cs : List Char,
    scanChars (cs ++ rest) = (do
      let tokens ← scanChars cs
      let tokens' ← scanChars rest
      .ok (tokens ++ tokens'))
  | [] => by
    rw [scanChars_nil]
    simp only [List.nil_append, bind, Except.bind]
    rcases scanChars rest with e | tokens <;> rfl
  | c :: cs => by
    rcases hc : Text.isBlank c
    · rcases longest_lexeme (c :: cs) with ⟨hnil, hnone⟩ | hlongest
      · rw [scanChars_append_of_none hc hrest hnone, (Munches.stop hnone).scanChars_eq]
        rfl
      · have happend := hlongest.append hc hrest
        generalize lexeme (c :: cs) = first at hlongest happend
        obtain ⟨d, more, rfl⟩ := List.exists_cons_of_ne_nil hlongest.isLexeme.ne_nil
        obtain ⟨after, hafter⟩ := hlongest.begins
        rw [List.cons_append, List.cons.injEq] at hafter
        obtain ⟨rfl, rfl⟩ := hafter
        have hwhole : lexeme (d :: (more ++ (after ++ rest))) = d :: more := by
          rw [← List.append_assoc]
          exact happend.lexeme_eq
        rw [List.cons_append, List.append_assoc, scanChars_append hwhole,
          scanChars_append hlongest.lexeme_eq, scanChars_append_parts hrest after, hc]
        rcases scanChars after with e | tokens
        · rfl
        · rcases scanChars rest with e | tokens' <;> rfl
    · rw [List.cons_append, scanChars_blank hc, scanChars_blank hc, scanChars_append_parts hrest cs]
termination_by cs => cs.length

theorem scanChars_append_blanks {gap : List Char} (hgap : ∀ c ∈ gap, Text.isBlank c = true)
    (cs : List Char) : scanChars (gap ++ cs) = scanChars cs := by
  induction gap with
  | nil => rfl
  | cons c gap ih =>
    obtain ⟨hc, hgap⟩ := List.forall_mem_cons.1 hgap
    rw [List.cons_append, scanChars_blank hc, ih hgap]

/-- A lexeme that is not blank is scanned as one token. -/
theorem scanChars_lexeme {t : Token} (h : IsLexeme t.text.toList)
    (hsome : ∃ c ∈ t.text.toList, Text.isBlank c = false) :
    scanChars t.text.toList = .ok [t] := by
  have hlongest : LongestLexeme t.text.toList (t.text.toList ++ []) := by
    rw [List.append_nil]
    exact ⟨h, List.prefix_rfl, fun other _ hb => hb.length_le⟩
  have hnone : ∀ first, IsLexeme first → ¬ first <+: [] := fun first hf hb =>
    hf.ne_nil (List.prefix_nil.1 hb)
  have hscan := (Munches.token hlongest hsome (.stop hnone)).scanChars_eq
  rw [List.append_nil, String.ofList_toList] at hscan
  exact hscan

theorem parts_spaced {pieces : List (List Char × Token)} {last : List Char}
    (hgaps : ∀ piece ∈ pieces, piece.1 ≠ [] ∧ ∀ c ∈ piece.1, Text.isBlank c = true)
    (hlast : ∀ c ∈ last, Text.isBlank c = true) : Parts (spaced pieces last) := by
  rcases pieces with _ | ⟨⟨gap, t⟩, pieces⟩
  · exact fun c hc => hlast c (List.mem_of_mem_head? hc)
  · obtain ⟨⟨hne, hgap⟩, -⟩ := List.forall_mem_cons.1 hgaps
    obtain ⟨c, more, rfl⟩ := List.exists_cons_of_ne_nil hne
    rintro _ ⟨⟩
    exact hgap c List.mem_cons_self

/-- Tokens are scanned back from a text that has them in order with blanks between them. -/
theorem scanChars_spaced {last : List Char} (hlast : ∀ c ∈ last, Text.isBlank c = true) :
    ∀ {pieces : List (List Char × Token)},
      (∀ piece ∈ pieces, scanChars piece.2.text.toList = .ok [piece.2]) →
      (∀ piece ∈ pieces, ∀ c ∈ piece.1, Text.isBlank c = true) →
      (∀ piece ∈ pieces.tail, piece.1 ≠ []) →
      scanChars (spaced pieces last) = .ok (pieces.map (·.2))
  | [], _, _, _ => by
    have h := scanChars_append_blanks hlast []
    rwa [List.append_nil, scanChars_nil] at h
  | (gap, t) :: pieces, htokens, hgaps, hne => by
    obtain ⟨ht, htokens⟩ := List.forall_mem_cons.1 htokens
    obtain ⟨hgap, hgaps⟩ := List.forall_mem_cons.1 hgaps
    have hparts : Parts (spaced pieces last) :=
      parts_spaced (fun piece hp => ⟨hne piece hp, hgaps piece hp⟩) hlast
    have hrest := scanChars_spaced hlast htokens hgaps fun piece hp =>
      hne piece (List.mem_of_mem_tail hp)
    have hsplit : spaced ((gap, t) :: pieces) last =
        gap ++ (t.text.toList ++ spaced pieces last) := by
      simp [spaced]
    rw [hsplit, scanChars_append_blanks hgap, scanChars_append_parts hparts, ht, hrest]
    rfl

/-- Blanks part a text: what is before them and what is after them are scanned as if each stood
alone, and the first error is reported. Tokens with blanks between them are scanned as these tokens,
so the layout of a formula has no part in what is read. -/
theorem scan_layout :
    (∀ before gap after : String, gap ≠ "" → (∀ c ∈ gap.toList, Text.isBlank c = true) →
      (∀ error, scan before = .error error → scan (before ++ gap ++ after) = .error error) ∧
      (∀ tokens error, scan before = .ok tokens → scan after = .error error →
        scan (before ++ gap ++ after) = .error error) ∧
      ∀ tokens tokens', scan before = .ok tokens → scan after = .ok tokens' →
        scan (before ++ gap ++ after) = .ok (tokens ++ tokens')) ∧
    ∀ text pieces last, scan text = .ok (pieces.map (·.2)) →
      (∀ piece ∈ pieces, ∀ c ∈ piece.1, Text.isBlank c = true) →
      (∀ piece ∈ pieces.tail, piece.1 ≠ []) → (∀ c ∈ last, Text.isBlank c = true) →
      scan (String.ofList (spaced pieces last)) = .ok (pieces.map (·.2)) ∧
        ∀ names, Parser.parse names (String.ofList (spaced pieces last)) =
          Parser.parse names text := by
  refine ⟨fun before gap after hne hgap => ?_, fun text pieces last h hgaps hne hlast => ?_⟩
  · have hparts : Parts (gap.toList ++ after.toList) := by
      obtain ⟨c, more, hcons⟩ := List.exists_cons_of_ne_nil (mt String.toList_eq_nil_iff.1 hne)
      rw [hcons] at hgap ⊢
      rintro _ ⟨⟩
      exact hgap c List.mem_cons_self
    have hseam : scan (before ++ gap ++ after) = (do
        let tokens ← scan before
        let tokens' ← scan after
        .ok (tokens ++ tokens')) := by
      rw [scan, String.toList_append, String.toList_append, List.append_assoc,
        scanChars_append_parts hparts, scanChars_append_blanks hgap]
      rfl
    rw [hseam]
    refine ⟨fun error hb => ?_, fun tokens error hb ha => ?_, fun tokens tokens' hb ha => ?_⟩
    · rw [hb]
      rfl
    · rw [hb, ha]
      rfl
    · rw [hb, ha]
      rfl
  · have htokens : ∀ piece ∈ pieces, scanChars piece.2.text.toList = .ok [piece.2] := by
      intro piece hp
      obtain ⟨tokens, left, hmunches⟩ := exists_munches text.toList
      obtain ⟨rfl, -⟩ := outcome_eq_ok.1 (hmunches.scanChars_eq.symm.trans h)
      obtain ⟨hlexeme, hsome⟩ := hmunches.isLexeme_of_mem piece.2 (List.mem_map_of_mem hp)
      exact scanChars_lexeme hlexeme hsome
    have hscan : scan (String.ofList (spaced pieces last)) = .ok (pieces.map (·.2)) := by
      rw [scan, String.toList_ofList]
      exact scanChars_spaced hlast htokens hgaps hne
    refine ⟨hscan, fun names => ?_⟩
    rw [Parser.parse, Parser.parse, hscan, h]

/-- The text before the blanks is scanned, and so the error is that of the text after them. -/
theorem scan_layout_point : scan ("a" ++ "\t " ++ "1.") = .error (.unrecognized ".") := by
  have hgap : ∀ c ∈ "\t ".toList, Text.isBlank c = true := List.all_eq_true.1 (by decide)
  obtain ⟨-, hafter, -⟩ := scan_layout.1 "a" "\t " "1." (by decide) hgap
  exact hafter [⟨"a"⟩] (.unrecognized ".") (by decide +kernel) (by decide +kernel)

end Token

end EstimateSheet
