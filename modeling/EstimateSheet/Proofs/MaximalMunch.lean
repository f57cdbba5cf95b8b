import EstimateSheet.Proofs.Printing

/-!
# Longest lexemes

What the lexemes of formula text are is said by `IsLexeme`, one kind after another and without a
word about how they are found. The lexeme that scanning takes at the start of a text is the longest
of all lexemes that the text begins with, and there is none if it takes none (`longest_lexeme`). So
scanning cuts the text into longest lexemes and goes on until no lexeme begins (`Munches`), which
leaves nothing or the place of the error (`scan_munches`).
-/

namespace EstimateSheet

namespace Token

/-- The texts of the operators and of the punctuation. -/
def marks : List String :=
  [">=", "<=", "==", "!=", "-", "+", "*", "/", "%", "^", "(", ")", ",", "<", ">"]

/-- An operator or punctuation. -/
def isMark (t : Token) : Bool := marks.contains t.text

/-- Digits, perhaps with a point before the last of them. -/
inductive IsNumeral : List Char → Prop where
  | digits {cs} : cs ≠ [] → (∀ c ∈ cs, c.isDigit = true) → IsNumeral cs
  | pointed {whole fraction} : (∀ c ∈ whole, c.isDigit = true) → fraction ≠ [] →
      (∀ c ∈ fraction, c.isDigit = true) → IsNumeral (whole ++ '.' :: fraction)

/-- A run of blanks, a mark, an identifier or a numeral. -/
inductive IsLexeme : List Char → Prop where
  | blanks {cs} : cs ≠ [] → (∀ c ∈ cs, Text.isBlank c = true) → IsLexeme cs
  | mark {text : String} : text ∈ marks → IsLexeme text.toList
  | identifier {c cs} : isNameStart c = true → (∀ d ∈ cs, isNameChar d = true) →
      IsLexeme (c :: cs)
  | numeral {cs} : IsNumeral cs → IsLexeme cs

/-- The text begins with the lexeme, and with no longer one. -/
structure LongestLexeme (first cs : List Char) : Prop where
  isLexeme : IsLexeme first
  begins : first <+: cs
  longest : ∀ other, IsLexeme other → other <+: cs → other.length ≤ first.length

/-- The text is cut into longest lexemes from its start, the tokens are those of them that are not
blank, and no lexeme begins at what is left. -/
inductive Munches : List Char → List Token → List Char → Prop where
  | stop {cs} : (∀ first, IsLexeme first → ¬ first <+: cs) → Munches cs [] cs
  | blanks {first rest tokens left} : LongestLexeme first (first ++ rest) →
      (∀ c ∈ first, Text.isBlank c = true) → Munches rest tokens left →
      Munches (first ++ rest) tokens left
  | token {first rest tokens left} : LongestLexeme first (first ++ rest) →
      (∃ c ∈ first, Text.isBlank c = false) → Munches rest tokens left →
      Munches (first ++ rest) (⟨String.ofList first⟩ :: tokens) left

/-- Tokens written one after another, each after the blanks that are paired with it, and the last
blanks at the end. -/
def spaced (pieces : List (List Char × Token)) (last : List Char) : List Char :=
  pieces.flatMap (fun (gap, t) => gap ++ t.text.toList) ++ last

section Lists

variable {α : Type} {p : α → Bool}

/-- A beginning of a list that satisfies a predicate is no longer than the longest one. -/
theorem length_le_of_all {as bs : List α} (h : as <+: bs) (hp : ∀ a ∈ as, p a = true) :
    as.length ≤ (bs.takeWhile p).length := by
  obtain ⟨rest, rfl⟩ := h
  rw [List.takeWhile_append_of_pos hp, List.length_append]
  omega

end Lists

/-- What begins a mark begins no other kind of lexeme. -/
theorem start_of_mem_marks : ∀ text ∈ marks, ∀ c ∈ text.toList.head?,
    Text.isBlank c = false ∧ isNameStart c = false ∧ c.isDigit = false ∧ c ≠ '.' := by
  have hall : (marks.all fun text => text.toList.head?.all fun c =>
    !Text.isBlank c && !isNameStart c && !c.isDigit && c != '.') = true := by decide
  intro text h c hc
  have hstart := List.all_eq_true.1 hall text h
  rw [Option.mem_def.1 hc] at hstart
  simpa [and_assoc] using hstart

theorem ne_nil_of_mem_marks : ∀ text ∈ marks, text.toList ≠ [] := by decide

theorem IsNumeral.ne_nil {cs : List Char} (h : IsNumeral cs) : cs ≠ [] := by
  cases h with
  | digits hne _ => exact hne
  | pointed => simp

/-- A numeral begins with a digit or a point. -/
theorem IsNumeral.start {c : Char} {cs : List Char} (h : IsNumeral (c :: cs)) :
    (c.isDigit || c == '.') = true := by
  generalize hl : c :: cs = l at h
  cases h with
  | digits _ hall =>
    subst hl
    simp [hall c List.mem_cons_self]
  | @pointed whole fraction hw _ _ =>
    rcases whole with _ | ⟨d, whole⟩
    · cases hl
      rfl
    · cases hl
      simp [hw c List.mem_cons_self]

theorem isNameStart_eq_false_of_numeral {c : Char} (h : (c.isDigit || c == '.') = true) :
    isNameStart c = false := by
  rcases Bool.or_eq_true_iff.1 h with h | h
  · exact isNameStart_eq_false_of_isDigit h
  · rw [beq_iff_eq.1 h]
    decide

theorem isBlank_eq_false_of_numeral {c : Char} (h : (c.isDigit || c == '.') = true) :
    Text.isBlank c = false := by
  rcases Bool.or_eq_true_iff.1 h with h | h
  · exact isBlank_eq_false_of_isDigit h
  · rw [beq_iff_eq.1 h]
    decide

namespace IsLexeme

variable {c : Char} {cs : List Char}

theorem ne_nil (h : IsLexeme cs) : cs ≠ [] := by
  cases h with
  | blanks hne _ => exact hne
  | mark h => exact ne_nil_of_mem_marks _ h
  | identifier => exact List.cons_ne_nil _ _
  | numeral h => exact h.ne_nil

/-- A lexeme is of the kind that its first character tells. -/
theorem kind (h : IsLexeme (c :: cs)) :
    if Text.isBlank c then ∀ d ∈ cs, Text.isBlank d = true
    else if isNameStart c then ∀ d ∈ cs, isNameChar d = true
    else if c.isDigit || c == '.' then IsNumeral (c :: cs)
    else ∃ text ∈ marks, text.toList = c :: cs := by
  generalize hl : c :: cs = l at h
  cases h with
  | blanks _ hall =>
    subst hl
    rw [if_pos (hall c List.mem_cons_self)]
    exact fun d hd => hall d (List.mem_cons_of_mem c hd)
  | mark hm =>
    obtain ⟨hb, hn, hd, hp⟩ := start_of_mem_marks _ hm c (by rw [← hl]; rfl)
    simp only [hb, hn, hd, beq_eq_false_iff_ne.2 hp, Bool.or_self, Bool.false_eq_true, if_false]
    exact ⟨_, hm, rfl⟩
  | identifier hc hall =>
    cases hl
    simp only [isBlank_eq_false_of_isNameStart hc, hc, Bool.false_eq_true, if_false, if_true]
    exact hall
  | numeral hnum =>
    subst hl
    have hstart := hnum.start
    simp only [isBlank_eq_false_of_numeral hstart, isNameStart_eq_false_of_numeral hstart, hstart,
      Bool.false_eq_true, if_false, if_true]
    exact hnum

end IsLexeme

namespace LongestLexeme

variable {c : Char} {cs : List Char}

/-- A candidate is the longest lexeme if no lexeme with the first character of the text is
longer. -/
theorem of_cons {more : List Char} (h : IsLexeme (c :: more)) (hb : more <+: cs)
    (hle : ∀ other, IsLexeme (c :: other) → other <+: cs → other.length ≤ more.length) :
    LongestLexeme (c :: more) (c :: cs) := by
  refine ⟨h, List.cons_prefix_cons.2 ⟨rfl, hb⟩, fun other ho hother => ?_⟩
  rcases other with _ | ⟨d, other⟩
  · exact Nat.zero_le _
  · obtain ⟨rfl, htail⟩ := List.cons_prefix_cons.1 hother
    exact Nat.succ_le_succ (hle other ho htail)

theorem blanks_of_start (hc : Text.isBlank c = true) :
    LongestLexeme (c :: cs.takeWhile Text.isBlank) (c :: cs) := by
  refine .of_cons (.blanks (List.cons_ne_nil _ _) ?_) (List.takeWhile_prefix _) fun other h ho => ?_
  · exact List.forall_mem_cons.2 ⟨hc, fun d hd => List.mem_takeWhile_imp hd⟩
  · have hkind := h.kind
    rw [if_pos hc] at hkind
    exact length_le_of_all ho hkind

theorem identifier_of_start (hc : isNameStart c = true) :
    LongestLexeme (c :: cs.takeWhile isNameChar) (c :: cs) := by
  refine .of_cons (.identifier hc fun d hd => List.mem_takeWhile_imp hd) (List.takeWhile_prefix _)
    fun other h ho => ?_
  have hkind := h.kind
  simp only [isBlank_eq_false_of_isNameStart hc, hc, Bool.false_eq_true, if_false, if_true] at hkind
  exact length_le_of_all ho hkind

end LongestLexeme

section Numeral

variable {cs : List Char}

/-- The numeral at the start of a text is one, unless there is none. -/
theorem isNumeral_numeral (hne : numeral cs ≠ []) : IsNumeral (numeral cs) := by
  have hdigit : ∀ {ds : List Char}, ∀ c ∈ ds.takeWhile Char.isDigit, c.isDigit = true :=
    fun c hc => List.mem_takeWhile_imp hc
  unfold numeral at hne ⊢
  dsimp only at hne ⊢
  split at hne
  next rest heq =>
    split_ifs at hne with hempty
    · rw [if_pos hempty]
      exact .digits hne hdigit
    · rw [if_neg hempty]
      exact .pointed hdigit (by simpa using hempty) hdigit
  next => exact .digits hne hdigit

theorem numeral_prefix (cs : List Char) : numeral cs <+: cs := by
  have hsplit := List.takeWhile_append_dropWhile (p := Char.isDigit) (l := cs)
  have hdigits : cs.takeWhile Char.isDigit <+: cs := List.takeWhile_prefix _
  unfold numeral
  dsimp only
  split
  next rest heq =>
    split_ifs
    · exact hdigits
    · have hfraction : '.' :: rest.takeWhile Char.isDigit <+: '.' :: rest :=
        List.cons_prefix_cons.2 ⟨rfl, List.takeWhile_prefix _⟩
      have hpointed := (List.prefix_append_right_inj (cs.takeWhile Char.isDigit)).2 hfraction
      rwa [← heq, hsplit] at hpointed
  next => exact hdigits

theorem length_takeWhile_le_numeral (cs : List Char) :
    (cs.takeWhile Char.isDigit).length ≤ (numeral cs).length := by
  unfold numeral
  dsimp only
  split
  next =>
    split_ifs
    · exact Nat.le_refl _
    · simp
  next => exact Nat.le_refl _

/-- No numeral at the start of a text is longer than the one that is found. -/
theorem IsNumeral.length_le {number : List Char} (h : IsNumeral number) (hb : number <+: cs) :
    number.length ≤ (numeral cs).length := by
  cases h with
  | digits _ hall => exact (length_le_of_all hb hall).trans (length_takeWhile_le_numeral cs)
  | @pointed whole fraction hw hne hf =>
    obtain ⟨rest, rfl⟩ := hb
    have hstop : ∀ c ∈ ('.' :: (fraction ++ rest)).head?, c.isDigit = false := by
      rintro _ ⟨⟩
      decide
    have hfraction : fraction <+: (fraction ++ rest).takeWhile Char.isDigit := by
      rw [List.takeWhile_append_of_pos hf]
      exact List.prefix_append ..
    have hne' : ((fraction ++ rest).takeWhile Char.isDigit).isEmpty = false := by
      rw [List.isEmpty_eq_false_iff]
      rintro hnil
      rw [hnil] at hfraction
      exact hne (List.prefix_nil.1 hfraction)
    have hlen := hfraction.length_le
    rw [List.append_assoc, List.cons_append, numeral, takeWhile_append hw hstop,
      dropWhile_append hw hstop]
    simp only [hne', Bool.false_eq_true, if_false, List.length_append, List.length_cons]
    omega

end Numeral

section Sign

/-- A mark has two characters, of which the second is an equality sign, or one. -/
theorem mem_marks_cases : ∀ text ∈ marks,
    text.toList ∈ [['>', '='], ['<', '='], ['=', '='], ['!', '=']] ∨
      ∃ c ∈ signs, text.toList = [c] := by
  have hall : (marks.all fun text =>
    [['>', '='], ['<', '='], ['=', '='], ['!', '=']].contains text.toList ||
      signs.any (text.toList == [·])) = true := by decide
  simpa only [List.all_eq_true, Bool.or_eq_true, List.contains_iff_mem, List.any_eq_true,
    beq_iff_eq] using hall

theorem mem_marks_of_pair : ∀ pair ∈ [['>', '='], ['<', '='], ['=', '='], ['!', '=']],
    ∃ text ∈ marks, text.toList = pair := by decide

theorem mem_marks_of_single : ∀ c ∈ signs, ∃ text ∈ marks, text.toList = [c] := by
  have hall : (signs.all fun c => marks.any (·.toList == [c])) = true := by decide
  simpa only [List.all_eq_true, List.any_eq_true, beq_iff_eq] using hall

/-- The sign at the start of a text is a mark, unless there is none. -/
theorem mem_marks_sign {cs : List Char} (hne : sign cs ≠ []) :
    (∃ text ∈ marks, text.toList = sign cs) ∧ sign cs <+: cs := by
  unfold sign at hne ⊢
  split at hne
  · exact ⟨mem_marks_of_pair _ (by decide), _, rfl⟩
  · exact ⟨mem_marks_of_pair _ (by decide), _, rfl⟩
  · exact ⟨mem_marks_of_pair _ (by decide), _, rfl⟩
  · exact ⟨mem_marks_of_pair _ (by decide), _, rfl⟩
  · split_ifs at hne with hc
    · rw [if_pos hc]
      exact ⟨mem_marks_of_single _ (List.contains_iff_mem.1 hc), _, rfl⟩
    · exact absurd rfl hne
  · exact absurd rfl hne

/-- No mark at the start of a text is longer than the sign that is found. -/
theorem length_le_sign {cs : List Char} {text : String} (h : text ∈ marks)
    (hb : text.toList <+: cs) : text.toList.length ≤ (sign cs).length := by
  obtain ⟨rest, rfl⟩ := hb
  rcases mem_marks_cases text h with hpair | ⟨c, hc, hsingle⟩
  · simp only [List.mem_cons, List.not_mem_nil, or_false] at hpair
    rcases hpair with hpair | hpair | hpair | hpair <;> rw [hpair] <;> exact Nat.le_refl _
  · rw [hsingle, List.singleton_append]
    unfold sign
    split
    · exact Nat.le_succ 1
    · exact Nat.le_succ 1
    · exact Nat.le_succ 1
    · exact Nat.le_succ 1
    next heq =>
      cases heq
      rw [if_pos (List.contains_iff_mem.2 hc)]
    next heq => cases heq

end Sign

/-- A finder of lexemes of one kind finds the longest lexeme of a text if all lexemes at its start
are of that kind. -/
theorem longest_of_found {found cs : List Char}
    (hfound : found ≠ [] → IsLexeme found ∧ found <+: cs)
    (hle : ∀ other, IsLexeme other → other <+: cs → other.length ≤ found.length) :
    (found = [] ∧ ∀ first, IsLexeme first → ¬ first <+: cs) ∨ LongestLexeme found cs := by
  by_cases hnil : found = []
  · refine .inl ⟨hnil, fun first h hb => h.ne_nil ?_⟩
    have hlen := hle first h hb
    rw [hnil] at hlen
    exact List.length_eq_zero_iff.1 (Nat.le_zero.1 hlen)
  · exact .inr ⟨(hfound hnil).1, (hfound hnil).2, hle⟩

/-- The lexeme at the start of a text is the longest one there, and if none is found there is
none. -/
theorem longest_lexeme (cs : List Char) :
    (lexeme cs = [] ∧ ∀ first, IsLexeme first → ¬ first <+: cs) ∨ LongestLexeme (lexeme cs) cs := by
  rcases cs with _ | ⟨c, cs⟩
  · exact .inl ⟨rfl, fun first h hb => h.ne_nil (List.prefix_nil.1 hb)⟩
  · have hkind : ∀ first, IsLexeme first → first <+: c :: cs → ∃ more, first = c :: more := by
      intro first h hb
      rcases first with _ | ⟨d, more⟩
      · exact absurd rfl h.ne_nil
      · obtain ⟨rfl, -⟩ := List.cons_prefix_cons.1 hb
        exact ⟨more, rfl⟩
    rw [lexeme]
    split_ifs with hblank hname hnumeral
    · exact .inr (.blanks_of_start hblank)
    · exact .inr (.identifier_of_start hname)
    · refine longest_of_found
        (fun hne => ⟨.numeral (isNumeral_numeral hne), numeral_prefix _⟩) fun other h hb => ?_
      obtain ⟨more, rfl⟩ := hkind other h hb
      have hother := h.kind
      rw [if_neg hblank, if_neg hname, if_pos hnumeral] at hother
      exact hother.length_le hb
    · refine longest_of_found (fun hne => ?_) fun other h hb => ?_
      · obtain ⟨⟨text, hmark, heq⟩, hb⟩ := mem_marks_sign hne
        exact ⟨heq ▸ .mark hmark, hb⟩
      · obtain ⟨more, rfl⟩ := hkind other h hb
        have hother := h.kind
        rw [if_neg hblank, if_neg hname, if_neg hnumeral] at hother
        obtain ⟨text, hmark, heq⟩ := hother
        rw [← heq] at hb ⊢
        exact length_le_sign hmark hb

theorem LongestLexeme.unique {first first' cs : List Char} (h : LongestLexeme first cs)
    (h' : LongestLexeme first' cs) : first = first' :=
  (List.prefix_of_prefix_length_le h.begins h'.begins
    (h'.longest first h.isLexeme h.begins)).eq_of_length
    (Nat.le_antisymm (h'.longest first h.isLexeme h.begins)
      (h.longest first' h'.isLexeme h'.begins))

theorem LongestLexeme.lexeme_eq {first cs : List Char} (h : LongestLexeme first cs) :
    lexeme cs = first := by
  rcases longest_lexeme cs with ⟨-, hnone⟩ | hlongest
  · exact absurd h.begins (hnone first h.isLexeme)
  · exact hlongest.unique h

theorem lexeme_eq_nil {cs : List Char} (h : ∀ first, IsLexeme first → ¬ first <+: cs) :
    lexeme cs = [] := by
  rcases longest_lexeme cs with ⟨hnil, -⟩ | hlongest
  · exact hnil
  · exact absurd hlongest.begins (h _ hlongest.isLexeme)

/-- A lexeme is blank throughout if its first character is. -/
theorem IsLexeme.isBlank_iff {c : Char} {cs : List Char} (h : IsLexeme (c :: cs)) :
    Text.isBlank c = true ↔ ∀ d ∈ c :: cs, Text.isBlank d = true := by
  refine ⟨fun hc => ?_, fun hall => hall c List.mem_cons_self⟩
  have hkind := h.kind
  rw [if_pos hc] at hkind
  exact List.forall_mem_cons.2 ⟨hc, hkind⟩

/-- Scanning takes the lexeme at the start and goes on after it. -/
theorem scanChars_append {c : Char} {more rest : List Char}
    (h : lexeme (c :: (more ++ rest)) = c :: more) :
    scanChars (c :: (more ++ rest)) = (scanChars rest).map fun tokens =>
      if Text.isBlank c then tokens else ⟨String.ofList (c :: more)⟩ :: tokens := by
  rw [scanChars.eq_def]
  simp only [h, List.drop_left]
  rcases scanChars rest with e | tokens
  · rfl
  · simp only [Except.map]
    split <;> rfl

/-- The outcome of scanning a text that has been cut into tokens up to `left`. -/
def outcome (tokens : List Token) (left : List Char) : Except FormulaError (List Token) :=
  if left.isEmpty then .ok tokens
  else .error (.unrecognized (String.ofList (left.takeWhile (!Text.isBlank ·))))

theorem map_outcome (f : List Token → List Token) (tokens : List Token) (left : List Char) :
    (outcome tokens left).map f = outcome (f tokens) left := by
  unfold outcome
  split <;> rfl

theorem Munches.scanChars_eq {cs : List Char} {tokens : List Token} {left : List Char}
    (h : Munches cs tokens left) : scanChars cs = outcome tokens left := by
  induction h with
  | @stop cs hnone =>
    rcases cs with _ | ⟨c, cs⟩
    · exact scanChars_nil
    · rw [scanChars.eq_def]
      simp only [lexeme_eq_nil hnone]
      rfl
  | @blanks first rest tokens left hfirst hall _ ih =>
    rcases first with _ | ⟨c, more⟩
    · exact absurd rfl hfirst.isLexeme.ne_nil
    · rw [List.cons_append, scanChars_append hfirst.lexeme_eq, ih, map_outcome,
        if_pos (hall c List.mem_cons_self)]
  | @token first rest tokens left hfirst hsome _ ih =>
    rcases first with _ | ⟨c, more⟩
    · exact absurd rfl hfirst.isLexeme.ne_nil
    · have hc : ¬ Text.isBlank c = true := by
        rw [hfirst.isLexeme.isBlank_iff]
        obtain ⟨d, hd, hblank⟩ := hsome
        exact fun hall => by simp [hall d hd] at hblank
      rw [List.cons_append, scanChars_append hfirst.lexeme_eq, ih, map_outcome, if_neg hc]

/-- Every text can be cut into longest lexemes up to somewhere. -/
theorem exists_munches (cs : List Char) : ∃ tokens left, Munches cs tokens left := by
  rcases longest_lexeme cs with ⟨-, hnone⟩ | hlongest
  · exact ⟨[], cs, .stop hnone⟩
  · generalize lexeme cs = first at hlongest
    obtain ⟨rest, hrest⟩ := hlongest.begins
    have hpos := List.length_pos_iff.2 hlongest.isLexeme.ne_nil
    have hlen : first.length + rest.length = cs.length := by rw [← hrest, List.length_append]
    obtain ⟨tokens, left, hmunches⟩ := exists_munches rest
    subst hrest
    by_cases hall : ∀ c ∈ first, Text.isBlank c = true
    · exact ⟨tokens, left, .blanks hlongest hall hmunches⟩
    · have hsome : ∃ c ∈ first, Text.isBlank c = false := by simpa using hall
      exact ⟨_, left, .token hlongest hsome hmunches⟩
termination_by cs.length

namespace Munches

variable {cs left : List Char} {tokens : List Token}

/-- Nothing of the text is lost: it is the tokens with blanks between them, and what is left. -/
theorem exists_spaced (h : Munches cs tokens left) : ∃ pieces last, pieces.map (·.2) = tokens ∧
    (∀ piece ∈ pieces, ∀ c ∈ piece.1, Text.isBlank c = true) ∧
    (∀ c ∈ last, Text.isBlank c = true) ∧ cs = spaced pieces (last ++ left) := by
  induction h with
  | stop => exact ⟨[], [], rfl, nofun, nofun, rfl⟩
  | @blanks first rest tokens left _ hall _ ih =>
    obtain ⟨pieces, last, rfl, hgaps, hlast, rfl⟩ := ih
    rcases pieces with _ | ⟨⟨gap, t⟩, pieces⟩
    · refine ⟨[], first ++ last, rfl, nofun, fun c hc => ?_, by simp [spaced]⟩
      exact (List.mem_append.1 hc).elim (hall c) (hlast c)
    · refine ⟨(first ++ gap, t) :: pieces, last, rfl, ?_, hlast, by simp [spaced]⟩
      obtain ⟨hgap, hgaps⟩ := List.forall_mem_cons.1 hgaps
      refine List.forall_mem_cons.2 ⟨fun c hc => ?_, hgaps⟩
      exact (List.mem_append.1 hc).elim (hall c) (hgap c)
  | @token first rest tokens left _ _ _ ih =>
    obtain ⟨pieces, last, rfl, hgaps, hlast, rfl⟩ := ih
    refine ⟨([], ⟨String.ofList first⟩) :: pieces, last, rfl, ?_, hlast, by simp [spaced]⟩
    exact List.forall_mem_cons.2 ⟨nofun, hgaps⟩

theorem isLexeme_of_mem (h : Munches cs tokens left) : ∀ t ∈ tokens,
    IsLexeme t.text.toList ∧ ∃ c ∈ t.text.toList, Text.isBlank c = false := by
  induction h with
  | stop => exact nofun
  | blanks _ _ _ ih => exact ih
  | token hfirst hsome _ ih =>
    refine List.forall_mem_cons.2 ⟨?_, ih⟩
    rw [String.toList_ofList]
    exact ⟨hfirst.isLexeme, hsome⟩

/-- What is left, if anything, does not begin with a blank. -/
theorem isBlank_left {c : Char} {rest : List Char} (h : Munches cs tokens left)
    (hleft : left = c :: rest) : Text.isBlank c = false := by
  induction h with
  | stop hnone =>
    subst hleft
    rcases hc : Text.isBlank c
    · rfl
    · exact absurd ⟨rest, rfl⟩ (hnone [c] (.blanks (List.cons_ne_nil _ _) (by simpa using hc)))
  | blanks _ _ _ ih => exact ih hleft
  | token _ _ _ ih => exact ih hleft

end Munches

/-- Which of the four kinds of tokens a token is. -/
def kinds (t : Token) : List Bool := [t.isMark, t.isKeyword, t.isName, t.isNumber]

theorem kinds_of_mem_marks : ∀ text ∈ marks, kinds ⟨text⟩ = [true, false, false, false] := by
  decide

theorem kinds_of_mem_keywords : ∀ text ∈ keywords, kinds ⟨text⟩ = [false, true, false, false] := by
  decide

theorem IsNumeral.isNumber {t : Token} (h : IsNumeral t.text.toList) : t.isNumber = true := by
  unfold Token.isNumber
  generalize t.text.toList = cs at h
  cases h with
  | digits hne hall =>
    have hdrop : cs.dropWhile Char.isDigit = [] := List.dropWhile_eq_nil_iff.2 hall
    simp [hdrop, hne]
  | @pointed whole fraction hw hne hf =>
    have hdrop : (whole ++ '.' :: fraction).dropWhile Char.isDigit = '.' :: fraction :=
      dropWhile_append hw (by rintro _ ⟨⟩; decide)
    simpa [hdrop, hne] using hf

/-- A token is a mark, a keyword, a name or a number, and only one of these. -/
theorem count_kinds {t : Token} (h : IsLexeme t.text.toList)
    (hsome : ∃ c ∈ t.text.toList, Text.isBlank c = false) : t.kinds.count true = 1 := by
  by_cases hmark : t.isMark = true
  · rw [show t = ⟨t.text⟩ from rfl, kinds_of_mem_marks _ (List.contains_iff_mem.1 hmark)]
    rfl
  by_cases hkeyword : t.isKeyword = true
  · rw [show t = ⟨t.text⟩ from rfl, kinds_of_mem_keywords _ (List.contains_iff_mem.1 hkeyword)]
    rfl
  rw [kinds, Bool.eq_false_iff.2 hmark, Bool.eq_false_iff.2 hkeyword]
  generalize hl : t.text.toList = cs at h hsome
  cases h with
  | blanks _ hall =>
    obtain ⟨c, hc, hblank⟩ := hsome
    simp [hall c hc] at hblank
  | @mark text hm =>
    refine absurd (List.contains_iff_mem.2 ?_) hmark
    rwa [String.toList_inj.1 hl]
  | identifier hc hall =>
    have hname : t.isName = true := by
      simp [isName, isIdentifier, hl, hc, hkeyword, List.all_eq_true.2 hall]
    have hnumber : t.isNumber = false := by
      refine Bool.eq_false_iff.2 fun hn => ?_
      rw [isName_eq_false_of_isNumber hn] at hname
      cases hname
    rw [hname, hnumber]
    rfl
  | numeral hnum =>
    subst hl
    have hnumber := hnum.isNumber
    rw [hnumber, isName_eq_false_of_isNumber hnumber]
    rfl

theorem outcome_eq_ok {tokens tokens' : List Token} {left : List Char} :
    outcome tokens left = .ok tokens' ↔ tokens = tokens' ∧ left = [] := by
  rcases left with _ | ⟨c, left⟩ <;> simp [outcome]

/-- The text that an error reports is what is left up to the next blank. -/
theorem outcome_eq_error {tokens : List Token} {left : List Char} {error : FormulaError} :
    outcome tokens left = .error error ↔ left ≠ [] ∧ ∃ stuck rest, left = stuck ++ rest ∧
      (∀ c ∈ stuck, Text.isBlank c = false) ∧ (∀ c ∈ rest.head?, Text.isBlank c = true) ∧
      error = .unrecognized (String.ofList stuck) := by
  have hstuck : ∀ {stuck : List Char}, (∀ c ∈ stuck, Text.isBlank c = false) →
      ∀ c ∈ stuck, (!Text.isBlank c) = true := fun h c hc => by rw [h c hc]; rfl
  unfold outcome
  split
  next hnil => simp [List.isEmpty_iff.1 hnil]
  next hne =>
    rw [List.isEmpty_iff] at hne
    simp only [Except.error.injEq, hne, ne_eq, not_false_eq_true, true_and]
    constructor
    · rintro rfl
      refine ⟨left.takeWhile (!Text.isBlank ·), left.dropWhile (!Text.isBlank ·),
        List.takeWhile_append_dropWhile.symm, fun c hc => ?_, fun c hc => ?_, rfl⟩
      · simpa using List.mem_takeWhile_imp hc
      · have hhead := List.head?_dropWhile_not (!Text.isBlank ·) left
        rw [hc] at hhead
        simpa using hhead
    · rintro ⟨stuck, rest, rfl, hall, hrest, rfl⟩
      rw [takeWhile_append (hstuck hall) fun c hc => by rw [hrest c hc]; rfl]

/-- Scanning is maximal munch over the whole text: each step takes the longest lexeme that the rest
of the text begins with. It succeeds if this goes on to the end, and then the text is its tokens
with nothing but blanks between them, each of them a mark, a keyword, a name or a number and only
one of these. Otherwise it reports the text from the first place where no lexeme begins up to the
next blank or the end, which is not empty. -/
theorem scan_munches (text : String) :
    (∀ tokens, scan text = .ok tokens ↔ Munches text.toList tokens []) ∧
      (∀ error, scan text = .error error ↔ ∃ tokens stuck rest,
        Munches text.toList tokens (stuck ++ rest) ∧ stuck ≠ [] ∧
        (∀ c ∈ stuck, Text.isBlank c = false) ∧ (∀ c ∈ rest.head?, Text.isBlank c = true) ∧
        error = .unrecognized (String.ofList stuck)) ∧
      ∀ tokens, scan text = .ok tokens →
        (∃ pieces last, pieces.map (·.2) = tokens ∧
          (∀ piece ∈ pieces, ∀ c ∈ piece.1, Text.isBlank c = true) ∧
          (∀ c ∈ last, Text.isBlank c = true) ∧ text.toList = spaced pieces last) ∧
        ∀ t ∈ tokens, [t.isMark, t.isKeyword, t.isName, t.isNumber].count true = 1 := by
  have hok : ∀ tokens, scan text = .ok tokens ↔ Munches text.toList tokens [] := by
    intro tokens
    constructor
    · intro h
      obtain ⟨tokens', left, hmunches⟩ := exists_munches text.toList
      obtain ⟨rfl, rfl⟩ := outcome_eq_ok.1 (hmunches.scanChars_eq.symm.trans h)
      exact hmunches
    · exact fun hmunches => hmunches.scanChars_eq.trans (outcome_eq_ok.2 ⟨rfl, rfl⟩)
  refine ⟨hok, fun error => ⟨fun h => ?_, ?_⟩, fun tokens h => ?_⟩
  · obtain ⟨tokens, left, hmunches⟩ := exists_munches text.toList
    obtain ⟨hne, stuck, rest, rfl, hstuck, hrest, rfl⟩ :=
      outcome_eq_error.1 (hmunches.scanChars_eq.symm.trans h)
    refine ⟨tokens, stuck, rest, hmunches, ?_, hstuck, hrest, rfl⟩
    rintro rfl
    obtain ⟨c, cs, rfl⟩ := List.exists_cons_of_ne_nil hne
    simp [hmunches.isBlank_left rfl] at hrest
  · rintro ⟨tokens, stuck, rest, hmunches, hne, hstuck, hrest, rfl⟩
    exact hmunches.scanChars_eq.trans
      (outcome_eq_error.2 ⟨by simp [hne], stuck, rest, rfl, hstuck, hrest, rfl⟩)
  · have hmunches := (hok tokens).1 h
    obtain ⟨pieces, last, hpieces, hgaps, hlast, htext⟩ := hmunches.exists_spaced
    rw [List.append_nil] at htext
    refine ⟨⟨pieces, last, hpieces, hgaps, hlast, htext⟩, fun t ht => ?_⟩
    obtain ⟨hlexeme, hsome⟩ := hmunches.isLexeme_of_mem t ht
    exact count_kinds hlexeme hsome

end Token

end EstimateSheet
