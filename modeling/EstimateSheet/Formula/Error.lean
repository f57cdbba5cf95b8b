import EstimateSheet.Formula.Arity
import EstimateSheet.Formula.Token

/-!
# Formula errors

What can be wrong with a formula when it is read or evaluated, and the wording of it.
-/

namespace EstimateSheet

/-- How the tokens of a formula fail to form an expression. Where a token is missing, `found` is the
token that stands in its place, if one does. -/
inductive Malformation where
  | tooDeep
  | endOfInput
  | unexpected (token : Token)
  | trailing (token : Token)
  | unclosed (found : Option Token)
  | uncalled (function : String) (found : Option Token)
deriving DecidableEq

/-- Why a formula has no tree or no value. -/
inductive FormulaError where
  | unrecognized (text : String)
  | malformed (cause : Malformation)
  | undefinedVariable (name : String)
  | unknownFunction (name : String)
  | argumentCount (function : String) (arity : Arity) (count : Nat)
  | percentileRange (percentile : Number)
deriving DecidableEq

/-- A token as it is shown in a message, or that the tokens have ended. -/
def describeFound (found : Option Token) : String :=
  match found with
  | none => "end of input"
  | some token => token.text

def Malformation.message : Malformation → String
  | tooDeep => "Formula nested too deeply"
  | endOfInput => "Unexpected end of input"
  | unexpected token => s!"Unexpected token: {token.text}"
  | trailing token => s!"Unexpected token at end: {token.text}"
  | unclosed found => s!"Expected closing parenthesis, found {describeFound found}"
  | uncalled function found =>
    s!"Expected opening parenthesis after function name {function}, found {describeFound found}"

def FormulaError.message : FormulaError → String
  | unrecognized text => s!"Unrecognized input: '{text}'"
  | malformed cause => s!"Syntax error: {cause.message}"
  | undefinedVariable name => s!"Undefined variable: {name}"
  | unknownFunction name => s!"Unknown function: {name}"
  | argumentCount function arity count =>
    s!"Wrong number of arguments for {function}: expected {arity.describe}, got {count}"
  | percentileRange percentile =>
    s!"Domain error: Percentile must be between 0 and 100, got {percentile}"

end EstimateSheet
