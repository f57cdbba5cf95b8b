import EstimateSheet.Formula.Error
import EstimateSheet.Text.Blank

/-!
# Lexemes

A lexeme is a run of blanks, an identifier, a numeral or an operator sign. Formula text is cut into
the longest lexemes from left to right, and those that are not blank are its tokens. Where no
lexeme begins, the text up to the next blank is reported.
-/

namespace EstimateSheet

namespace Token

/-- The longest numeral at the start of a text, empty if there is none. A point belongs to it only
with a digit after it. -/
def numeral (cs : List Char) : List Char :=
  let digits := cs.takeWhile Char.isDigit
  match cs.dropWhile Char.isDigit with
  | '.' :: rest =>
    let fraction := rest.takeWhile Char.isDigit
    if fraction.isEmpty then digits else digits ++ '.' :: fraction
  | _ => digits

/-- The operator signs and punctuation of one character. -/
def signs : List Char := ['-', '+', '*', '/', '%', '^', '(', ')', ',', '<', '>']

/-- The longest operator sign at the start of a text, empty if there is none. -/
def sign : List Char → List Char
  | '>' :: '=' :: _ => ['>', '=']
  | '<' :: '=' :: _ => ['<', '=']
  | '=' :: '=' :: _ => ['=', '=']
  | '!' :: '=' :: _ => ['!', '=']
  | c :: _ => if signs.contains c then [c] else []
  | [] => []

/-- The longest lexeme at the start of a text, empty if there is none. -/
def lexeme : List Char → List Char
  | [] => []
  | c :: cs =>
    if Text.isBlank c then c :: cs.takeWhile Text.isBlank
    else if isNameStart c then c :: cs.takeWhile isNameChar
    else if c.isDigit || c == '.' then numeral (c :: cs)
    else sign (c :: cs)

/-- The tokens of a formula text. -/
def scanChars : List Char → Except FormulaError (List Token)
  | [] => .ok []
  | c :: cs =>
    match lexeme (c :: cs) with
    | [] => .error (.unrecognized (String.ofList ((c :: cs).takeWhile (!Text.isBlank ·))))
    | first :: more =>
      match scanChars (cs.drop more.length) with
      | .error e => .error e
      | .ok tokens =>
        if Text.isBlank first then .ok tokens
        else .ok (⟨String.ofList (first :: more)⟩ :: tokens)
termination_by cs => cs.length
decreasing_by simp only [List.length_drop, List.length_cons]; omega

theorem scanChars_nil : scanChars [] = .ok [] := by rw [scanChars.eq_def]

/-- A lexeme is a token unless it is blank, and then come the tokens of the text after it. -/
theorem scanChars_of_lexeme (first : Char) (more : List Char) {rest : List Char}
    {tokens : List Token} (h : lexeme (first :: (more ++ rest)) = first :: more)
    (hs : scanChars rest = .ok tokens) :
    scanChars (first :: (more ++ rest)) =
      .ok (if Text.isBlank first then tokens else ⟨String.ofList (first :: more)⟩ :: tokens) := by
  rw [scanChars.eq_def]
  simp only [h, List.drop_left, hs]
  split <;> rfl

/-- The tokens of a formula. -/
def scan (formula : String) : Except FormulaError (List Token) := scanChars formula.toList

end Token

end EstimateSheet
