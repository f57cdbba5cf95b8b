import EstimateSheet.Text.Blank
import EstimateSheet.Text.Word

/-!
# Declarations

A declaration is a passage `[name = formula]` of a text. The name is a whole run of word
characters, blanks may stand around the sign, and the formula is what stands before the next closing
bracket, so it can hold an opening one. A text is read from left to right; reading goes on after
the closing bracket of a declaration, and after the opening one if no declaration begins there.
-/

namespace EstimateSheet

/-- A name and the formula text declared for it. -/
structure Declaration where
  name : String
  formula : String
deriving DecidableEq

namespace Declaration

/-- The declaration whose opening bracket stands before the text, and the text after it. What stands
between the sign and the closing bracket must not be empty, but it may be blank. -/
def afterBracket? (cs : List Char) : Option (Declaration × List Char) :=
  let name := cs.takeWhile Text.isWord
  match Text.trimStart (cs.dropWhile Text.isWord) with
  | '=' :: body =>
    let formula := body.takeWhile (· != ']')
    match body.dropWhile (· != ']') with
    | [] => none
    | _ :: rest =>
      if name.isEmpty || formula.isEmpty then none
      else
        some (⟨String.ofList name, String.ofList (Text.trimEnd (Text.trimStart formula))⟩, rest)
  | _ => none

/-- Dropping characters makes a text no longer. -/
theorem length_dropWhile_le (p : Char → Bool) (cs : List Char) :
    (cs.dropWhile p).length ≤ cs.length :=
  (List.dropWhile_sublist p).length_le

/-- Reading a declaration uses up some of the text. -/
theorem length_lt_of_afterBracket? {cs rest : List Char} {d : Declaration}
    (h : afterBracket? cs = some (d, rest)) : rest.length < cs.length := by
  unfold afterBracket? at h
  split at h
  next body hbody =>
    split at h
    · simp at h
    next c rest' hrest =>
      dsimp only at h
      split at h
      · simp at h
      · obtain rfl : rest' = rest := by simpa using (Prod.mk.inj (Option.some.inj h)).2
        have h1 := length_dropWhile_le Text.isBlank (cs.dropWhile Text.isWord)
        have h2 := length_dropWhile_le Text.isWord cs
        have h3 := length_dropWhile_le (· != ']') body
        rw [Text.trimStart] at hbody
        rw [hbody, List.length_cons] at h1
        rw [hrest, List.length_cons] at h3
        omega
  · simp at h

def scanChars : List Char → List Declaration
  | [] => []
  | c :: cs =>
    if c = '[' then
      match h : afterBracket? cs with
      | some (d, rest) =>
        have := length_lt_of_afterBracket? h
        d :: scanChars rest
      | none => scanChars cs
    else scanChars cs
termination_by cs => cs.length

/-- A declaration is followed by those of the text after it. -/
theorem scanChars_of_afterBracket? {cs rest : List Char} {d : Declaration}
    (h : afterBracket? cs = some (d, rest)) : scanChars ('[' :: cs) = d :: scanChars rest := by
  rw [scanChars, if_pos rfl]
  split
  next d' rest' h' =>
    rw [h] at h'
    cases h'
    rfl
  next h' =>
    rw [h] at h'
    cases h'

/-- The declarations of a text, in order. -/
def scan (text : String) : List Declaration := scanChars text.toList

end Declaration

end EstimateSheet
