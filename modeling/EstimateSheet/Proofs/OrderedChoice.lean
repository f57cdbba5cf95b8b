import EstimateSheet.Proofs.MaximalMunch
import EstimateSheet.Text.Word

/-!
# Lexemes by ordered choice

The lexemes can also be described by one pattern, whose alternatives are tried in order and of
which the first match counts: operators of two characters before those of one, keywords that end
with a word before identifiers, a numeral that gives back digits if nothing else will do. `Matcher`
gives patterns a meaning, with all matches in the order in which backtracking comes to them. The
first match of the pattern of lexemes is the lexeme that scanning takes (`head?_lexemes`), the
longest one: neither the order of the alternatives nor the end of a word makes a difference.
-/

namespace EstimateSheet

/-- A pattern: the lengths of its matches at the start of a text, in the order in which they are
tried. -/
abbrev Matcher := List Char → List Nat

namespace Matcher

/-- The word itself. -/
def text (word : List Char) : Matcher := fun cs => if word.isPrefixOf cs then [word.length] else []

/-- One character of a kind. -/
def one (p : Char → Bool) : Matcher := fun cs => if cs.head?.any p then [1] else []

/-- Characters of a kind, first as many as there are and then fewer, down to none. -/
def many (p : Char → Bool) : Matcher := fun cs =>
  (List.range ((cs.takeWhile p).length + 1)).reverse

/-- What the pattern matches, or else nothing. -/
def perhaps (m : Matcher) : Matcher := fun cs => m cs ++ [0]

/-- After a word character, the end of the word. -/
def wordEnd : Matcher := fun cs => if cs.head?.any Text.isWord then [] else [0]

/-- One pattern and then another. For each match of the first all those of the second are tried. -/
def followedBy (m m' : Matcher) : Matcher := fun cs =>
  (m cs).flatMap fun n => (m' (cs.drop n)).map (n + ·)

/-- Characters of a kind, one at least. -/
def atLeastOne (p : Char → Bool) : Matcher := (one p).followedBy (many p)

/-- The alternatives in order. -/
def firstOf (ms : List Matcher) : Matcher := fun cs => ms.flatMap (· cs)

/-- The operators of two characters. -/
def pairs : Matcher :=
  firstOf ([['>', '='], ['<', '='], ['=', '='], ['!', '=']].map text)

/-- The keywords as words of their own. -/
def words : Matcher := (firstOf (Token.keywords.map (text ·.toList))).followedBy wordEnd

/-- The identifiers. -/
def identifiers : Matcher := (one Token.isNameStart).followedBy (many Token.isNameChar)

/-- What follows the digits that a numeral begins with. -/
def lastDigits : Matcher := (perhaps (one (· == '.'))).followedBy (atLeastOne Char.isDigit)

/-- The lexemes. -/
def lexemes : Matcher :=
  firstOf [pairs, words, one Token.signs.contains, atLeastOne Text.isBlank, identifiers,
    (many Char.isDigit).followedBy lastDigits]

/-- The length of what is found, if anything is. -/
def found (first : List Char) : Option Nat := if first = [] then none else some first.length

section Rules

variable {p : Char → Bool} {c : Char} {cs : List Char}

theorem head?_firstOf {m : Matcher} {ms : List Matcher} :
    (firstOf (m :: ms) cs).head? = ((m cs).head?).or (firstOf ms cs).head? := by
  rw [firstOf, List.flatMap_cons, List.head?_append]
  rfl

theorem one_cons : one p (c :: cs) = if p c then [1] else [] := rfl

theorem many_eq : many p cs =
    (cs.takeWhile p).length :: (List.range (cs.takeWhile p).length).reverse := by
  rw [many, List.range_succ, List.reverse_append]
  rfl

/-- One character of a kind and then as many of another as there are. -/
theorem head?_one_many {q : Char → Bool} : ((one p).followedBy (many q) (c :: cs)).head? =
    if p c then some (c :: cs.takeWhile q).length else none := by
  rw [followedBy, one_cons]
  split_ifs
  · simp [many_eq, Nat.add_comm]
  · rfl

theorem head?_atLeastOne : (atLeastOne p cs).head? = found (cs.takeWhile p) := by
  rcases cs with _ | ⟨c, cs⟩
  · rfl
  · rw [atLeastOne, head?_one_many, List.takeWhile_cons]
    split_ifs <;> rfl

end Rules

section Signs

theorem text_pair_eq_nil {a b c : Char} {cs : List Char}
    (h : ∀ rest, c = a → cs = b :: rest → False) : text [a, b] (c :: cs) = [] := by
  rw [text, if_neg]
  rw [List.isPrefixOf_iff_prefix]
  rintro ⟨rest, heq⟩
  simp only [List.cons_append, List.nil_append, List.cons.injEq] at heq
  exact h rest heq.1.symm heq.2.symm

/-- An operator of two characters or else of one is the sign at the start of a text. -/
theorem head?_signs (cs : List Char) :
    ((pairs cs).head?).or (one Token.signs.contains cs).head? = found (Token.sign cs) := by
  unfold Token.sign
  split
  · rfl
  · rfl
  · rfl
  · rfl
  next c cs h1 h2 h3 h4 =>
    have hpairs : pairs (c :: cs) = [] := by
      simp only [pairs, firstOf, List.map_cons, List.map_nil, List.flatMap_cons, List.flatMap_nil,
        text_pair_eq_nil h1, text_pair_eq_nil h2, text_pair_eq_nil h3, text_pair_eq_nil h4,
        List.append_nil]
    rw [hpairs, one_cons]
    split_ifs <;> rfl
  · rfl

end Signs

section Words

theorem isWord_of_isNameChar {c : Char} (h : Token.isNameChar c = true) : Text.isWord c = true := by
  rw [Text.isWord, ← Token.isNameChar, h, Bool.true_or]

theorem ne_nil_of_mem_keywords : ∀ word ∈ Token.keywords, word.toList ≠ [] := by decide

theorem isNameStart_of_mem_keywords : ∀ word ∈ Token.keywords, ∀ c ∈ word.toList.head?,
    Token.isNameStart c = true := by
  have hall : (Token.keywords.all (·.toList.head?.all Token.isNameStart)) = true := by decide
  simpa only [List.all_eq_true, Option.all_eq_true, Option.mem_def] using hall

theorem isNameChar_of_mem_keywords : ∀ word ∈ Token.keywords, ∀ c ∈ word.toList.tail,
    Token.isNameChar c = true := by
  have hall : (Token.keywords.all (·.toList.tail.all Token.isNameChar)) = true := by decide
  simpa only [List.all_eq_true] using hall

theorem of_mem_words {cs : List Char} {n : Nat} (h : n ∈ words cs) :
    ∃ word ∈ Token.keywords, ∃ rest, cs = word.toList ++ rest ∧ n = word.toList.length ∧
      rest.head?.any Text.isWord = false := by
  obtain ⟨k, hk, hn⟩ := List.mem_flatMap.1 h
  obtain ⟨m, hm, hk⟩ := List.mem_flatMap.1 hk
  obtain ⟨word, hword, rfl⟩ := List.mem_map.1 hm
  obtain ⟨hbegins, hk⟩ := List.mem_ite_nil_right.1 hk
  obtain rfl := List.mem_singleton.1 hk
  obtain ⟨rest, rfl⟩ := List.isPrefixOf_iff_prefix.1 hbegins
  obtain ⟨d, hd, rfl⟩ := List.mem_map.1 hn
  obtain ⟨hend, hd⟩ := List.mem_ite_nil_left.1 hd
  obtain rfl := List.mem_singleton.1 hd
  rw [List.drop_left, Bool.not_eq_true] at hend
  exact ⟨word, hword, rest, rfl, rfl, hend⟩

variable {c : Char} {cs : List Char}

theorem words_eq_nil (h : Token.isNameStart c = false) : words (c :: cs) = [] := by
  refine List.eq_nil_iff_forall_not_mem.2 fun n hn => ?_
  obtain ⟨word, hword, rest, heq, -, -⟩ := of_mem_words hn
  obtain ⟨d, more, hne⟩ := List.exists_cons_of_ne_nil (ne_nil_of_mem_keywords word hword)
  rw [hne, List.cons_append, List.cons.injEq] at heq
  have hstart := isNameStart_of_mem_keywords word hword d (by rw [hne]; rfl)
  rw [← heq.1, h] at hstart
  cases hstart

/-- A keyword is matched only where it is all of the identifier. -/
theorem length_of_mem_words {n : Nat} (h : n ∈ words (c :: cs)) :
    n = (c :: cs.takeWhile Token.isNameChar).length := by
  obtain ⟨word, hword, rest, heq, rfl, hend⟩ := of_mem_words h
  have hchars := isNameChar_of_mem_keywords word hword
  obtain ⟨d, more, hne⟩ := List.exists_cons_of_ne_nil (ne_nil_of_mem_keywords word hword)
  rw [hne, List.cons_append, List.cons.injEq] at heq
  obtain ⟨rfl, rfl⟩ := heq
  rw [hne, List.tail_cons] at hchars
  have hstop : ∀ d ∈ rest.head?, Token.isNameChar d = false := by
    intro d hd
    rw [hd, Option.any_some] at hend
    exact Bool.eq_false_iff.2 fun hname => by
      rw [isWord_of_isNameChar hname] at hend
      cases hend
  rw [hne, Token.takeWhile_append hchars hstop]

end Words

section Numerals

variable {c : Char} {cs : List Char}

theorem head?_lastDigits_point :
    (lastDigits ('.' :: cs)).head? = (found (cs.takeWhile Char.isDigit)).map (1 + ·) := by
  have hnone : atLeastOne Char.isDigit ('.' :: cs) = [] := rfl
  simp [lastDigits, followedBy, perhaps, one_cons, hnone, List.head?_map, head?_atLeastOne]

theorem head?_lastDigits (h : c ≠ '.') :
    (lastDigits (c :: cs)).head? = found ((c :: cs).takeWhile Char.isDigit) := by
  simp [lastDigits, followedBy, perhaps, one_cons, h, head?_atLeastOne]

/-- Where nothing but digits can be found, the last of them is given back to be found again. -/
theorem head?_fewer {digits rest : List Char} (hdigits : ∀ d ∈ digits, d.isDigit = true)
    (hrest : ∀ d ∈ rest.head?, d.isDigit = false) :
    ((List.range digits.length).reverse.flatMap fun n =>
      (lastDigits ((digits ++ rest).drop n)).map (n + ·)).head? = found digits := by
  rcases List.eq_nil_or_concat digits with rfl | ⟨digits, d, rfl⟩
  · rfl
  · rw [List.concat_eq_append] at hdigits ⊢
    have hd : d.isDigit = true := hdigits d (by simp)
    have hpoint : d ≠ '.' := by
      rintro rfl
      cases hd
    have hlast : (d :: rest).takeWhile Char.isDigit = [d] := by
      rw [← List.singleton_append]
      exact Token.takeWhile_append (List.forall_mem_singleton.2 hd) hrest
    rw [List.length_append, List.length_singleton, List.range_succ, List.reverse_append,
      List.reverse_singleton, List.singleton_append, List.flatMap_cons, List.append_assoc,
      List.drop_left, List.head?_append, List.head?_map, List.singleton_append,
      head?_lastDigits hpoint, hlast]
    simp [found]

theorem head?_numeral (cs : List Char) :
    ((many Char.isDigit).followedBy lastDigits cs).head? = found (Token.numeral cs) := by
  have hsplit := List.takeWhile_append_dropWhile (p := Char.isDigit) (l := cs)
  have hdigits : ∀ d ∈ cs.takeWhile Char.isDigit, d.isDigit = true := fun d hd =>
    List.mem_takeWhile_imp hd
  have hrest : ∀ d ∈ (cs.dropWhile Char.isDigit).head?, d.isDigit = false := by
    intro d hd
    have hhead := List.head?_dropWhile_not Char.isDigit cs
    rwa [hd] at hhead
  rw [followedBy, many_eq, Token.numeral]
  generalize cs.takeWhile Char.isDigit = digits at *
  generalize cs.dropWhile Char.isDigit = rest at *
  subst hsplit
  rw [List.flatMap_cons, List.head?_append, List.drop_left, List.head?_map,
    head?_fewer hdigits hrest]
  split
  next rest =>
    rw [head?_lastDigits_point]
    dsimp only
    split_ifs with hempty
    · rw [List.isEmpty_iff.1 hempty]
      rfl
    · rw [found, if_neg (by simpa using hempty)]
      simp [found, Nat.add_comm]
  next hpoint =>
    rcases rest with _ | ⟨c, rest⟩
    · rfl
    · have hc : c.isDigit = false := hrest c rfl
      rw [head?_lastDigits fun heq => hpoint rest (by rw [heq]), List.takeWhile_cons, hc]
      rfl

end Numerals

theorem sign_eq_nil {c : Char} {cs : List Char}
    (h : (Text.isBlank c || Token.isNameStart c || c.isDigit || c == '.') = true) :
    Token.sign (c :: cs) = [] := by
  by_contra hne
  obtain ⟨⟨word, hword, heq⟩, rest, hrest⟩ := Token.mem_marks_sign hne
  obtain ⟨d, more, hcons⟩ := List.exists_cons_of_ne_nil hne
  rw [hcons, List.cons_append, List.cons.injEq] at hrest
  obtain ⟨hb, hn, hd, hp⟩ := Token.start_of_mem_marks word hword c (by
    rw [heq, hcons, hrest.1]
    rfl)
  simp [hb, hn, hd, hp] at h

theorem numeral_eq_nil {c : Char} {cs : List Char} (h : (c.isDigit || c == '.') = false) :
    Token.numeral (c :: cs) = [] := by
  by_contra hne
  have hnumeral := Token.isNumeral_numeral hne
  obtain ⟨rest, hrest⟩ := Token.numeral_prefix (c :: cs)
  obtain ⟨d, more, hcons⟩ := List.exists_cons_of_ne_nil hne
  rw [hcons, List.cons_append, List.cons.injEq] at hrest
  rw [hcons, hrest.1] at hnumeral
  rw [hnumeral.start] at h
  cases h

/-- The first match of the pattern of lexemes is the lexeme that scanning takes. -/
theorem head?_lexemes (cs : List Char) : (lexemes cs).head? = found (Token.lexeme cs) := by
  rcases cs with _ | ⟨c, cs⟩
  · rfl
  have hsigns := head?_signs (c :: cs)
  simp only [lexemes, head?_firstOf, atLeastOne, identifiers, head?_one_many, head?_numeral]
  rw [Token.lexeme]
  rcases hname : Token.isNameStart c
  · rw [words_eq_nil hname]
    rcases hsign : Text.isBlank c || c.isDigit || c == '.'
    · simp only [Bool.or_eq_false_iff] at hsign
      obtain ⟨⟨hblank, hdigit⟩, hpoint⟩ := hsign
      rw [numeral_eq_nil (by rw [hdigit, hpoint]; rfl)]
      simp only [hblank, hdigit, hpoint, Bool.or_self, Bool.false_eq_true, if_false, ← hsigns]
      rcases (pairs (c :: cs)).head? with _ | n
      · rcases (one Token.signs.contains (c :: cs)).head? with _ | n <;> rfl
      · rfl
    · rw [sign_eq_nil (by rw [hname, Bool.or_false]; exact hsign)] at hsigns
      obtain ⟨hpairs, hone⟩ := Option.or_eq_none_iff.1 hsigns
      rw [hpairs, hone]
      rcases hblank : Text.isBlank c
      · rw [hblank, Bool.false_or] at hsign
        simp only [hsign, Bool.false_eq_true, if_false, if_true]
        rcases found (Token.numeral (c :: cs)) with _ | n <;> rfl
      · rfl
  · have hblank := Token.isBlank_eq_false_of_isNameStart hname
    rw [sign_eq_nil (by rw [hname, Bool.or_true]; rfl)] at hsigns
    obtain ⟨hpairs, hone⟩ := Option.or_eq_none_iff.1 hsigns
    simp only [hpairs, hone, hblank, Bool.false_eq_true, if_false, if_true]
    -- a keyword and the identifier are equally long
    rcases hwords : words (c :: cs) with _ | ⟨n, more⟩
    · rfl
    · have hmem : n ∈ words (c :: cs) := by
        rw [hwords]
        exact List.mem_cons_self
      rw [length_of_mem_words hmem]
      rfl

example : lexemes "1.x".toList = [1] := by decide

end Matcher

end EstimateSheet
