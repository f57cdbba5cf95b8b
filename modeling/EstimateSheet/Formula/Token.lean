import EstimateSheet.Number.Decimal

/-!
# Tokens

A token is a piece of formula text. What it is follows from the text alone: an identifier, which is
a name unless it is one of the three keywords, a numeral, or neither.
-/

namespace EstimateSheet

/-- A piece of formula text. -/
structure Token where
  text : String
deriving DecidableEq

namespace Token

/-- Letters of ASCII and the underscore begin an identifier. -/
def isNameStart (c : Char) : Bool := c.isAlpha || c == '_'

/-- Letters and digits of ASCII and the underscore continue an identifier. -/
def isNameChar (c : Char) : Bool := c.isAlphanum || c == '_'

/-- The words that join formulas. They are shaped like identifiers but name nothing. -/
def keywords : List String := ["AND", "OR", "NOT"]

/-- A letter or underscore, and then letters, digits and underscores. -/
def isIdentifier (t : Token) : Bool :=
  match t.text.toList with
  | [] => false
  | c :: cs => isNameStart c && cs.all isNameChar

def isKeyword (t : Token) : Bool := keywords.contains t.text

/-- An identifier that can name a cell or a function. -/
def isName (t : Token) : Bool := t.isIdentifier && !t.isKeyword

/-- Digits, or digits with a point before the last of them: `12`, `1.5`, `.5`. -/
def isNumber (t : Token) : Bool :=
  let cs := t.text.toList
  match cs.dropWhile Char.isDigit with
  | [] => !cs.isEmpty
  | c :: fraction => c == '.' && !fraction.isEmpty && fraction.all Char.isDigit

def value (t : Token) : Number :=
  let whole := t.text.toList.takeWhile Char.isDigit
  let fraction := (t.text.toList.dropWhile Char.isDigit).drop 1
  Number.ofDecimal (digitsValue (whole ++ fraction)) fraction.length

end Token

end EstimateSheet
