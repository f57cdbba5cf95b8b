import EstimateSheet.Document.Declaration
import EstimateSheet.Proofs.Printing

/-!
# What the declarations of a text are

Reading a text from left to right takes a declaration wherever one begins and goes on after it, and
it moves on by one character where none does. `Begins` says what the text of a declaration is made
of, and it is what reading after an opening bracket looks for (`afterBracket?_eq_some_iff`). So the
declarations of a text are those that are found in this way (`declares_iff`).
-/

namespace EstimateSheet

namespace Text

/-- The code points of the blanks. -/
def blankPoints : List Nat :=
  List.range' 0x09 5 ++ List.range' 0x2000 11 ++
    [0x20, 0x85, 0xA0, 0x1680, 0x2028, 0x2029, 0x202F, 0x205F, 0x3000]

theorem toNat_mem_blankPoints {c : Char} (h : isBlank c = true) : c.toNat ∈ blankPoints := by
  simp only [isBlank, Bool.or_eq_true, Bool.and_eq_true, decide_eq_true_eq, beq_iff_eq] at h
  simp only [blankPoints, List.mem_append, List.mem_range'_1, List.mem_cons, List.not_mem_nil,
    or_false]
  omega

/-- No blank is a part of a word. -/
theorem isWord_eq_false_of_isBlank {c : Char} (h : isBlank c = true) : isWord c = false := by
  have hpoints : ∀ n ∈ blankPoints, isWord (Char.ofNat n) = false := by decide +kernel
  rw [← Char.ofNat_toNat c]
  exact hpoints _ (toNat_mem_blankPoints h)

end Text

namespace Declaration

/-- A declaration at the start of a text, and the text after it: an opening bracket, a word that
ends there, blanks, the sign, and something that goes on to the next closing bracket. -/
inductive Begins : List Char → Declaration → List Char → Prop
  | intro {name blanks formula : List Char} (rest : List Char) (name_ne_nil : name ≠ [])
    (isWord_of_mem : ∀ c ∈ name, Text.isWord c = true)
    (isBlank_of_mem : ∀ c ∈ blanks, Text.isBlank c = true)
    (stops : ∀ c ∈ (blanks ++ ['=']).head?, Text.isWord c = false)
    (formula_ne_nil : formula ≠ []) (ne_of_mem : ∀ c ∈ formula, c ≠ ']') :
    Begins ('[' :: (name ++ (blanks ++ '=' :: (formula ++ ']' :: rest))))
      ⟨String.ofList name, String.ofList (Text.trimEnd (Text.trimStart formula))⟩ rest

/-- The declarations of a text: after one come those of the text that is left, and where none begins
they are those of the text without its first character. -/
inductive Declares : List Char → List Declaration → Prop
  | done : Declares [] []
  | found {text rest : List Char} {d : Declaration} {ds : List Declaration}
    (begins : Begins text d rest) (declares : Declares rest ds) : Declares text (d :: ds)
  | skip {c : Char} {cs : List Char} {ds : List Declaration}
    (none : ∀ d rest, ¬ Begins (c :: cs) d rest) (declares : Declares cs ds) :
    Declares (c :: cs) ds

variable {c : Char} {cs text rest : List Char} {d : Declaration}

theorem eq_append_of_dropWhile_eq_cons {p : Char → Bool} (h : cs.dropWhile p = c :: rest) :
    cs = cs.takeWhile p ++ c :: rest ∧ p c = false := by
  refine ⟨?_, ?_⟩
  · rw [← h, List.takeWhile_append_dropWhile]
  · have hhead := List.head?_dropWhile_not p cs
    rwa [h] at hhead

/-- A word ends where blanks or the sign follow. -/
theorem isWord_eq_false_of_blanks {blanks : List Char}
    (h : ∀ c ∈ blanks, Text.isBlank c = true) (after : List Char) :
    ∀ c ∈ (blanks ++ '=' :: after).head?, Text.isWord c = false := by
  rcases blanks with _ | ⟨b, blanks⟩
  · rintro _ ⟨⟩
    rfl
  · rintro _ ⟨⟩
    exact Text.isWord_eq_false_of_isBlank (h b List.mem_cons_self)

theorem begins_of_afterBracket? (h : afterBracket? cs = some (d, rest)) :
    Begins ('[' :: cs) d rest := by
  unfold afterBracket? at h
  split at h
  next body hsign =>
    dsimp only at h
    split at h
    · cases h
    next closing rest' hclosing =>
      split_ifs at h with hempty
      cases h
      rw [Bool.or_eq_true, List.isEmpty_iff, List.isEmpty_iff, not_or] at hempty
      obtain ⟨hblanks, -⟩ := eq_append_of_dropWhile_eq_cons hsign
      obtain ⟨hbody, hbracket⟩ := eq_append_of_dropWhile_eq_cons hclosing
      obtain rfl : closing = ']' := by simpa using hbracket
      have hblank : ∀ c ∈ (cs.dropWhile Text.isWord).takeWhile Text.isBlank,
          Text.isBlank c = true := fun c hc => List.mem_takeWhile_imp hc
      have hbegins := Begins.intro rest hempty.1 (fun c hc => List.mem_takeWhile_imp hc) hblank
        (isWord_eq_false_of_blanks hblank []) hempty.2
        fun c hc => by simpa using List.mem_takeWhile_imp hc
      rwa [← hbody, ← hblanks, List.takeWhile_append_dropWhile] at hbegins
  · cases h

theorem afterBracket?_of_begins (h : Begins ('[' :: cs) d rest) :
    afterBracket? cs = some (d, rest) := by
  generalize htext : '[' :: cs = text at h
  obtain @⟨name, blanks, formula, rest, hne, hname, hblanks, -, hformula, hmem⟩ := h
  cases htext
  have hword := isWord_eq_false_of_blanks hblanks (formula ++ ']' :: rest)
  have hsign : ∀ c ∈ ('=' :: (formula ++ ']' :: rest)).head?, Text.isBlank c = false := by
    rintro _ ⟨⟩
    rfl
  have hbody : ∀ c ∈ formula, (c != ']') = true := fun c hc => bne_iff_ne.2 (hmem c hc)
  have hclosing : ∀ c ∈ (']' :: rest).head?, (c != ']') = false := by
    rintro _ ⟨⟩
    rfl
  unfold afterBracket?
  simp [Token.takeWhile_append hname hword, Token.dropWhile_append hname hword, Text.trimStart,
    Token.dropWhile_append hblanks hsign, Token.takeWhile_append hbody hclosing,
    Token.dropWhile_append hbody hclosing, hne, hformula]

theorem afterBracket?_eq_some_iff :
    afterBracket? cs = some (d, rest) ↔ Begins ('[' :: cs) d rest :=
  ⟨begins_of_afterBracket?, afterBracket?_of_begins⟩

theorem afterBracket?_eq_none_iff :
    afterBracket? cs = none ↔ ∀ d rest, ¬ Begins ('[' :: cs) d rest := by
  simp only [← afterBracket?_eq_some_iff, Option.eq_none_iff_forall_ne_some, Prod.forall, ne_eq]

theorem suffix_of_afterBracket? (h : afterBracket? cs = some (d, rest)) : rest <:+ cs := by
  rcases begins_of_afterBracket? h with @⟨name, blanks, formula, rest, -, -, -, -, -, -⟩
  exact ⟨name ++ (blanks ++ '=' :: (formula ++ [']'])), by simp⟩

theorem not_begins_of_ne (hc : c ≠ '[') : ¬ Begins (c :: cs) d rest := by
  rintro ⟨⟩
  exact hc rfl

theorem scanChars_of_none (h : afterBracket? cs = none) :
    scanChars ('[' :: cs) = scanChars cs := by
  rw [scanChars, if_pos rfl]
  split
  next d rest h' =>
    rw [h] at h'
    cases h'
  next => rfl

theorem scanChars_of_ne (hc : c ≠ '[') (cs : List Char) : scanChars (c :: cs) = scanChars cs := by
  rw [scanChars, if_neg hc]

theorem Begins.scanChars_eq (h : Begins text d rest) : scanChars text = d :: scanChars rest := by
  obtain ⟨cs, rfl⟩ : ∃ cs, text = '[' :: cs := by
    obtain ⟨⟩ := h
    exact ⟨_, rfl⟩
  exact scanChars_of_afterBracket? (afterBracket?_of_begins h)

theorem scanChars_of_not_begins (h : ∀ d rest, ¬ Begins (c :: cs) d rest) :
    scanChars (c :: cs) = scanChars cs := by
  by_cases hc : c = '['
  · subst hc
    exact scanChars_of_none (afterBracket?_eq_none_iff.2 h)
  · exact scanChars_of_ne hc cs

theorem declares_scanChars (cs : List Char) : Declares cs (scanChars cs) := by
  fun_induction scanChars cs with
  | case1 => exact .done
  | case2 cs d rest h _ ih => exact .found (begins_of_afterBracket? h) ih
  | case3 cs h ih => exact .skip (afterBracket?_eq_none_iff.1 h) ih
  | case4 c cs hc ih => exact .skip (fun d rest => not_begins_of_ne hc) ih

/-- A text has the declarations that scanning finds, and no others. -/
theorem declares_iff {ds : List Declaration} : Declares cs ds ↔ ds = scanChars cs := by
  constructor
  · intro h
    induction h with
    | done => exact scanChars.eq_1.symm
    | found h _ ih => rw [h.scanChars_eq, ih]
    | skip h _ ih => rw [scanChars_of_not_begins h, ih]
  · rintro rfl
    exact declares_scanChars cs

end Declaration

end EstimateSheet
