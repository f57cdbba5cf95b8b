import EstimateSheet.Number.Rounding

/-!
# Decimal text

The written form of a number is the shortest one. Its digits are the fewest that read back to the
number, found on the decimal grids from the coarsest to the one on which the number itself lies;
of two neighbours on a grid that both read back the nearer is taken, and at the same distance the
larger. It is always positional, without an exponent.
-/

namespace EstimateSheet

/-- The natural number a row of decimal digits stands for. -/
def digitsValue (digits : List Char) : Nat :=
  digits.foldl (fun n c => 10 * n + (c.toNat - '0'.toNat)) 0

namespace Number

/-- The exact decimal expansion `digits / 10 ^ places` of a finite magnitude. -/
def exactDecimal (magnitude : Nat) : Nat × Nat :=
  let binade := magnitude / binadeSize
  let significand := if binade = 0 then magnitude else binadeSize + magnitude % binadeSize
  let exponent := binade - 1
  if 1074 ≤ exponent then (significand <<< (exponent - 1074), 0)
  else (significand * Nat.pow 5 (1074 - exponent), 1074 - exponent)

/-- `digits / 10 ^ places` is read as the given magnitude. -/
def readsBack (magnitude digits places : Nat) : Bool :=
  nearestMagnitude (digits * oneUnits) (powerOfTen places) == magnitude

/-- From a row of digits to the shortest one accepted, with zeros in place of those it gives up. The
argument counts the final digits that the coarsest grid left to try gives up. -/
def shorten (accepts : Nat → Bool) (digits : Nat) : Nat → Nat
  | 0 => digits
  | dropped + 1 =>
    let grid := powerOfTen (dropped + 1)
    let below := digits / grid * grid
    let above := below + grid
    match accepts below, accepts above with
    | true, true => if above - digits ≤ digits - below then above else below
    | true, false => below
    | false, true => above
    | false, false => shorten accepts digits dropped

/-- The text of `digits / 10 ^ places`: no zeros at the end of the fraction, and no point without
a fraction. -/
def decimalText (digits places : Nat) : String :=
  let whole := toString (digits / powerOfTen places)
  let fraction := (toString (digits % powerOfTen places)).toList
  let fraction := List.replicate (places - fraction.length) '0' ++ fraction
  let fraction := (fraction.reverse.dropWhile (· == '0')).reverse
  if fraction.isEmpty then whole else whole ++ "." ++ String.ofList fraction

/-- The text of a finite magnitude. -/
def magnitudeText (magnitude : Nat) : String :=
  let (digits, places) := exactDecimal magnitude
  let shortest := shorten (readsBack magnitude · places) digits ((toString digits).length - 1)
  decimalText shortest places

protected def toString (x : Number) : String :=
  if x.isNaN then "NaN"
  else
    let sign := if x.negative then "-" else ""
    if x.isInfinite then sign ++ "inf" else sign ++ magnitudeText x.magnitude

instance : ToString Number := ⟨Number.toString⟩

/-- The number an unsigned decimal text stands for: digits, a point and digits, or one of them
left out, and then perhaps an exponent. -/
def ofUnsignedText? (text : List Char) : Option Number := do
  let whole := text.takeWhile Char.isDigit
  let rest := text.dropWhile Char.isDigit
  let (fraction, rest) := match rest with
    | '.' :: rest => (rest.takeWhile Char.isDigit, rest.dropWhile Char.isDigit)
    | _ => ([], rest)
  if whole.isEmpty && fraction.isEmpty then none
  else
    let digits := digitsValue (whole ++ fraction)
    match rest with
    | [] => some (ofDecimal digits fraction.length)
    | e :: rest =>
      if e == 'e' || e == 'E' then
        let (below, exponent) := match rest with
          | '-' :: rest => (true, rest)
          | '+' :: rest => (false, rest)
          | _ => (false, rest)
        if exponent.isEmpty || !exponent.all Char.isDigit then none
        else
          let exponent := digitsValue exponent
          if below then some (ofDecimal digits (fraction.length + exponent))
          else if exponent ≤ fraction.length then
            some (ofDecimal digits (fraction.length - exponent))
          else some (Number.ofNat (digits * powerOfTen (exponent - fraction.length)))
      else none

/-- The number a text stands for: a decimal with or without a sign, `inf` or `NaN`. -/
def ofText? (text : String) : Option Number :=
  let (negative, rest) := match text.toList with
    | '-' :: rest => (true, rest)
    | '+' :: rest => (false, rest)
    | rest => (false, rest)
  let read :=
    if rest == "inf".toList then some (infinite false)
    else if rest == "NaN".toList then some absent
    else ofUnsignedText? rest
  if negative then read.map (- ·) else read

end Number

end EstimateSheet
