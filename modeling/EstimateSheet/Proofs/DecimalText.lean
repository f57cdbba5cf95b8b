import EstimateSheet.Formula.Token
import Mathlib.Data.List.DropRight
import Mathlib.Data.List.TakeWhile
import Mathlib.Tactic.Ring

/-!
# Numbers read back from their text

A magnitude is the nearest one to the ratio that is its exact value (`nearestMagnitude_units`), and
rounding depends on the ratio alone (`nearestMagnitude_mul`). Shortening keeps to decimals that
round to the number, and the zeros that the text leaves out do not change the ratio. So the text of
a finite number is a numeral whose value is the number (`isNumber_toString`, `value_toString`).
-/

namespace EstimateSheet

namespace Number

/-- Rounding depends on the ratio, and not on the terms it is given in. -/
theorem nearestMagnitude_mul (num den : Nat) {k : Nat} (hk : 0 < k) :
    nearestMagnitude (num * k) (den * k) = nearestMagnitude num den := by
  have hstep : ∀ binade, (den * k) <<< binade = (den <<< binade) * k := by
    intro binade
    rw [Nat.shiftLeft_eq, Nat.shiftLeft_eq]
    ring
  have hlt : ∀ step rest : Nat, step * k < 2 * (rest * k) ↔ step < 2 * rest := by
    intro step rest
    rw [← Nat.mul_assoc]
    exact Nat.mul_lt_mul_right hk
  have heq : ∀ step rest : Nat, (2 * (rest * k) == step * k) = (2 * rest == step) := by
    intro step rest
    rw [Bool.eq_iff_iff, beq_iff_eq, beq_iff_eq, ← Nat.mul_assoc]
    exact Nat.mul_left_inj hk.ne'
  simp only [nearestMagnitude, Nat.mul_div_mul_right _ _ hk, hstep, Nat.mul_mod_mul_right, hlt, heq]

/-- A count of units that is a whole number of steps of its binade is not rounded. -/
theorem nearestMagnitude_exact {n binade quotient : Nat} (hn : n.log2 - 52 = binade)
    (hq : n = quotient * 2 ^ binade) :
    nearestMagnitude n 1 = min infiniteMagnitude (binade * binadeSize + quotient) := by
  have hpos : 0 < 2 ^ binade := Nat.two_pow_pos binade
  have hstep : 1 <<< binade = 2 ^ binade := by rw [Nat.shiftLeft_eq, Nat.one_mul]
  have hdiv : n / 2 ^ binade = quotient := by rw [hq, Nat.mul_div_cancel _ hpos]
  have hmod : n % 2 ^ binade = 0 := by rw [hq, Nat.mul_mod_left]
  have hne : ¬ 0 = 2 ^ binade := by omega
  simp [nearestMagnitude, hn, hstep, hdiv, hmod, hne]

theorem log2_mul_two_pow {n shift : Nat} (hlow : 2 ^ 52 ≤ n) (hhigh : n < 2 ^ 53) :
    (n * 2 ^ shift).log2 = 52 + shift := by
  have hpos : 0 < n := by omega
  rw [Nat.log2_eq_iff (Nat.mul_pos hpos (Nat.two_pow_pos shift)).ne']
  constructor
  · rw [Nat.pow_add]
    exact Nat.mul_le_mul_right _ hlow
  · rw [Nat.add_right_comm, Nat.pow_add]
    exact Nat.mul_lt_mul_of_pos_right hhigh (Nat.two_pow_pos shift)

/-- The units of a magnitude are its significand, scaled by its binade. -/
theorem magnitudeUnits_eq (magnitude : Nat) : magnitudeUnits magnitude =
    (if magnitude / binadeSize = 0 then magnitude else binadeSize + magnitude % binadeSize) *
      2 ^ (magnitude / binadeSize - 1) := by
  unfold magnitudeUnits
  dsimp only
  split_ifs with h
  · rw [h, Nat.zero_sub, Nat.pow_zero, Nat.mul_one]
  · rw [Nat.shiftLeft_eq]

/-- A finite magnitude is the nearest one to its exact value. -/
theorem nearestMagnitude_units {magnitude : Nat} (h : magnitude < infiniteMagnitude) :
    nearestMagnitude (magnitudeUnits magnitude) 1 = magnitude := by
  have hunits := magnitudeUnits_eq magnitude
  have hsize : binadeSize = 2 ^ 52 := rfl
  have hsplit := Nat.div_add_mod magnitude binadeSize
  have hr := Nat.mod_lt magnitude (show 0 < binadeSize by decide)
  split_ifs at hunits with hbinade
  · rw [hbinade] at hunits hsplit
    have hlt : magnitude < 2 ^ 52 := by omega
    have hlog : (magnitudeUnits magnitude).log2 - 52 = 0 := by
      rw [hunits, Nat.zero_sub, Nat.pow_zero, Nat.mul_one]
      rcases Nat.eq_zero_or_pos magnitude with rfl | hpos
      · rfl
      · have := (Nat.log2_lt hpos.ne').2 hlt
        omega
    rw [nearestMagnitude_exact hlog hunits]
    omega
  · obtain ⟨binade, hb⟩ := Nat.exists_eq_succ_of_ne_zero hbinade
    rw [hb] at hunits hsplit
    rw [show binade.succ - 1 = binade from rfl] at hunits
    have hlog : (magnitudeUnits magnitude).log2 = 52 + binade := by
      rw [hunits]
      exact log2_mul_two_pow (by omega) (by omega)
    rw [nearestMagnitude_exact (by omega) hunits, ← Nat.add_assoc, ← Nat.succ_mul, Nat.mul_comm,
      hsplit, Nat.min_eq_right h.le]

theorem powerOfTen_pos (n : Nat) : 0 < powerOfTen n := Nat.pow_pos (by decide)

theorem powerOfTen_add (m n : Nat) : powerOfTen (m + n) = powerOfTen m * powerOfTen n :=
  Nat.pow_add 10 m n

/-- A number in steps of `2 ^ exponent`, counted in units of which `2 ^ scale` are one, and written
as a decimal. -/
theorem expansion_mul (steps exponent scale : Nat) :
    let expansion := if scale ≤ exponent then (steps <<< (exponent - scale), 0)
      else (steps * Nat.pow 5 (scale - exponent), scale - exponent)
    expansion.1 * 1 <<< scale = steps * 2 ^ exponent * powerOfTen expansion.2 := by
  intro expansion
  have hpow : ∀ {m n : Nat}, m ≤ n → 2 ^ n = 2 ^ (n - m) * 2 ^ m := fun {m n} h => by
    rw [← Nat.pow_add, Nat.sub_add_cancel h]
  rw [Nat.shiftLeft_eq, Nat.one_mul]
  simp only [expansion]
  split_ifs with h
  · rw [Nat.shiftLeft_eq, hpow h, Nat.mul_assoc]
    exact (Nat.mul_one _).symm
  · have hten : powerOfTen (scale - exponent) = 5 ^ (scale - exponent) * 2 ^ (scale - exponent) :=
      Nat.mul_pow 5 2 _
    rw [hten, hpow (Nat.le_of_not_le h), Nat.pow_eq]
    ring

/-- The exact decimal expansion of a magnitude is its exact value. -/
theorem exactDecimal_mul (magnitude : Nat) :
    (exactDecimal magnitude).1 * oneUnits =
      magnitudeUnits magnitude * powerOfTen (exactDecimal magnitude).2 := by
  rw [magnitudeUnits_eq]
  exact expansion_mul _ (magnitude / binadeSize - 1) 1074

theorem readsBack_exactDecimal {magnitude : Nat} (h : magnitude < infiniteMagnitude) :
    readsBack magnitude (exactDecimal magnitude).1 (exactDecimal magnitude).2 = true := by
  have hround := nearestMagnitude_mul (magnitudeUnits magnitude) 1
    (powerOfTen_pos (exactDecimal magnitude).2)
  rw [Nat.one_mul, nearestMagnitude_units h] at hround
  rw [readsBack, exactDecimal_mul, hround, beq_self_eq_true]

/-- Shortening keeps to what is accepted. -/
theorem accepts_shorten {accepts : Nat → Bool} {digits : Nat} (h : accepts digits = true) :
    ∀ dropped, accepts (shorten accepts digits dropped) = true
  | 0 => h
  | dropped + 1 => by
    rw [shorten]
    split
    next hbelow habove =>
      split_ifs
      · exact habove
      · exact hbelow
    next hbelow _ => exact hbelow
    next _ habove => exact habove
    next => exact accepts_shorten h dropped

theorem ofDecimal_mul (digits places zeros : Nat) :
    ofDecimal (digits * powerOfTen zeros) (places + zeros) = ofDecimal digits places := by
  have h := nearestMagnitude_mul (digits * oneUnits) (powerOfTen places) (powerOfTen_pos zeros)
  simp only [ofDecimal, ofRatio, powerOfTen_add, Nat.mul_right_comm digits, h]

/-- A decimal that reads back is read as the number. -/
theorem ofDecimal_of_readsBack {x : Number} {digits places : Nat} (hs : x.negative = false)
    (h : readsBack x.magnitude digits places = true) : ofDecimal digits places = x := by
  obtain ⟨negative, magnitude, hlt⟩ := x
  subst hs
  rw [readsBack, beq_iff_eq] at h
  simp only [ofDecimal, ofRatio, h]

end Number

section Digits

theorem digitsValue_append (xs ys : List Char) :
    digitsValue (xs ++ ys) = Number.powerOfTen ys.length * digitsValue xs + digitsValue ys :=
  (Nat.ofDigitChars_append 0).trans Nat.ofDigitChars_eq_ofDigitChars_zero

theorem digitsValue_replicate (n : Nat) : digitsValue (List.replicate n '0') = 0 :=
  Nat.ofDigitChars_replicate_zero.trans (Nat.mul_zero _)

theorem digitsValue_append_replicate (xs : List Char) (n : Nat) :
    digitsValue (xs ++ List.replicate n '0') = digitsValue xs * Number.powerOfTen n := by
  rw [digitsValue_append, digitsValue_replicate, List.length_replicate, Nat.add_zero, Nat.mul_comm]

theorem digitsValue_toString (n : Nat) : digitsValue (toString n).toList = n := by
  rw [Nat.toString_eq_repr, Nat.toList_repr]
  exact Nat.ofDigitChars_toDigits (by decide) (by decide)

theorem isDigit_of_mem_toString {n : Nat} {c : Char} (h : c ∈ (toString n).toList) :
    c.isDigit = true := by
  rw [Nat.toString_eq_repr, Nat.toList_repr] at h
  exact Nat.isDigit_of_mem_toDigits (by decide) (by decide) h

theorem toList_toString_ne_nil (n : Nat) : (toString n).toList ≠ [] := by
  rw [Nat.toString_eq_repr, Nat.toList_repr]
  exact Nat.toDigits_ne_nil

theorem length_toString_le {n places : Nat} (hp : 0 < places) (h : n < Number.powerOfTen places) :
    (toString n).toList.length ≤ places := by
  rw [Nat.toString_eq_repr, Nat.toList_repr]
  exact (Nat.length_toDigits_le_iff (by decide) hp).2 h

/-- A row of digits is what is left without the zeros at its end, and these zeros. -/
theorem exists_zeros (digits : List Char) : ∃ zeros,
    digits = (digits.reverse.dropWhile (· == '0')).reverse ++ List.replicate zeros '0' := by
  have hzeros : ∀ c ∈ digits.rtakeWhile (· == '0'), c = '0' := by
    intro c hc
    simpa using List.mem_rtakeWhile_imp hc
  refine ⟨(digits.rtakeWhile (· == '0')).length, ?_⟩
  rw [← List.eq_replicate_of_mem hzeros]
  exact List.rdropWhile_append_rtakeWhile.symm

/-- The end of a numeral after the digits of its whole part. -/
def pointed (fraction : List Char) : List Char :=
  if fraction.isEmpty then [] else '.' :: fraction

/-- A text with the given digits before the point and after it. -/
structure Spells (text : String) (whole fraction : List Char) : Prop where
  toList_eq : text.toList = whole ++ pointed fraction
  whole_ne_nil : whole ≠ []
  isDigit_whole : ∀ c ∈ whole, c.isDigit = true
  isDigit_fraction : ∀ c ∈ fraction, c.isDigit = true

/-- A fraction written with all its places. -/
def placed (n places : Nat) : List Char :=
  List.replicate (places - (toString n).toList.length) '0' ++ (toString n).toList

theorem isDigit_of_mem_placed {n places : Nat} {c : Char} (h : c ∈ placed n places) :
    c.isDigit = true := by
  rcases List.mem_append.1 h with h | h
  · rw [List.eq_of_mem_replicate h]
    decide
  · exact isDigit_of_mem_toString h

theorem digitsValue_placed (n places : Nat) : digitsValue (placed n places) = n := by
  rw [placed, digitsValue_append, digitsValue_replicate, digitsValue_toString, Nat.mul_zero,
    Nat.zero_add]

theorem length_placed {n places : Nat} (hp : 0 < places) (h : n < Number.powerOfTen places) :
    (placed n places).length = places := by
  have := length_toString_le hp h
  rw [placed, List.length_append, List.length_replicate]
  omega

theorem decimalText_eq (digits places : Nat) {fraction : List Char}
    (h : fraction = ((placed (digits % Number.powerOfTen places) places).reverse.dropWhile
      (· == '0')).reverse) :
    (Number.decimalText digits places).toList =
      (toString (digits / Number.powerOfTen places)).toList ++ pointed fraction := by
  unfold Number.decimalText pointed
  dsimp only
  rw [← placed, ← h]
  split_ifs
  · exact (List.append_nil _).symm
  · simp

theorem exists_spells_decimalText (digits places : Nat) : ∃ whole fraction zeros,
    Spells (Number.decimalText digits places) whole fraction ∧
      digits = digitsValue (whole ++ fraction) * Number.powerOfTen zeros ∧
      places = fraction.length + zeros := by
  set whole := (toString (digits / Number.powerOfTen places)).toList with hwhole
  set part := digits % Number.powerOfTen places with hpart
  obtain ⟨zeros, hzeros⟩ := exists_zeros (placed part places)
  set fraction := ((placed part places).reverse.dropWhile (· == '0')).reverse with hfraction
  have hspells : Spells (Number.decimalText digits places) whole fraction := by
    refine ⟨decimalText_eq digits places hfraction, toList_toString_ne_nil _,
      fun c => isDigit_of_mem_toString, fun c hc => ?_⟩
    have hmem : c ∈ placed part places := by
      rw [hzeros]
      exact List.mem_append_left _ hc
    exact isDigit_of_mem_placed hmem
  rcases Nat.eq_zero_or_pos places with rfl | hp
  · -- there is one digit although there are no places: the zero that is the remainder
    have hnil : fraction = [] := by
      rw [hfraction, hpart, show digits % Number.powerOfTen 0 = 0 from Nat.mod_one _]
      decide
    refine ⟨whole, fraction, 0, hspells, ?_, by rw [hnil]; rfl⟩
    rw [hnil, List.append_nil, hwhole, digitsValue_toString]
    simp [Number.powerOfTen]
  · have hpart_lt : part < Number.powerOfTen places := Nat.mod_lt _ (Number.powerOfTen_pos _)
    have hlength : places = fraction.length + zeros := by
      rw [← length_placed hp hpart_lt, hzeros, List.length_append, List.length_replicate]
    refine ⟨whole, fraction, zeros, hspells, ?_, hlength⟩
    rw [← digitsValue_append_replicate, List.append_assoc, ← hzeros, digitsValue_append,
      length_placed hp hpart_lt, digitsValue_placed, hwhole, digitsValue_toString]
    exact (Nat.div_add_mod _ _).symm

end Digits

namespace Spells

variable {text : String} {whole fraction : List Char}

/-- A row of digits is a numeral without a point. -/
theorem ofDigits (hne : whole ≠ []) (hdigits : ∀ c ∈ whole, c.isDigit = true) :
    Spells (String.ofList whole) whole [] where
  toList_eq := by rw [String.toList_ofList, pointed, List.isEmpty_nil, if_pos rfl, List.append_nil]
  whole_ne_nil := hne
  isDigit_whole := hdigits
  isDigit_fraction := nofun

theorem takeWhile_eq (h : Spells text whole fraction) :
    text.toList.takeWhile Char.isDigit = whole := by
  rw [h.toList_eq, List.takeWhile_append_of_pos h.isDigit_whole, pointed]
  split_ifs <;> simp

theorem dropWhile_eq (h : Spells text whole fraction) :
    text.toList.dropWhile Char.isDigit = pointed fraction := by
  rw [h.toList_eq, List.dropWhile_append_of_pos h.isDigit_whole, pointed]
  split_ifs <;> simp

theorem isNumber (h : Spells text whole fraction) : (Token.mk text).isNumber = true := by
  have hne : text.toList ≠ [] := by
    rw [h.toList_eq]
    exact List.append_ne_nil_of_left_ne_nil h.whole_ne_nil _
  unfold Token.isNumber
  dsimp only
  rw [h.dropWhile_eq, pointed]
  split_ifs with hnil
  · simpa using hne
  · simpa [hnil] using h.isDigit_fraction

theorem value (h : Spells text whole fraction) : (Token.mk text).value =
    Number.ofDecimal (digitsValue (whole ++ fraction)) fraction.length := by
  have hdrop : (pointed fraction).drop 1 = fraction := by
    rw [pointed]
    split_ifs with hnil
    · exact (List.isEmpty_iff.1 hnil).symm
    · rfl
  unfold Token.value
  rw [h.takeWhile_eq, h.dropWhile_eq, hdrop]

end Spells

namespace Number

/-- The text of a finite number without a sign is a numeral that stands for it. -/
theorem spells_toString {x : Number} (hf : x.isFinite = true) (hs : x.negative = false) :
    ∃ whole fraction, Spells x.toString whole fraction ∧
      ofDecimal (digitsValue (whole ++ fraction)) fraction.length = x := by
  have hlt : x.magnitude < infiniteMagnitude := of_decide_eq_true hf
  have htext : x.toString = magnitudeText x.magnitude := by
    have hnan : ¬ infiniteMagnitude < x.magnitude := by omega
    have hinf : ¬ x.magnitude = infiniteMagnitude := by omega
    simp [Number.toString, isNaN, isInfinite, hs, hnan, hinf]
  set digits := (exactDecimal x.magnitude).1
  set places := (exactDecimal x.magnitude).2
  set shortest := shorten (readsBack x.magnitude · places) digits ((toString digits).length - 1)
  have hshortest : readsBack x.magnitude shortest places = true :=
    @accepts_shorten (readsBack x.magnitude · places) digits (readsBack_exactDecimal hlt) _
  obtain ⟨whole, fraction, zeros, hspells, hdigits, hplaces⟩ :=
    exists_spells_decimalText shortest places
  refine ⟨whole, fraction, ?_, ?_⟩
  · rw [htext]
    exact hspells
  · rw [← ofDecimal_mul _ _ zeros, ← hdigits, ← hplaces]
    exact ofDecimal_of_readsBack hs hshortest

theorem isNumber_toString {x : Number} (hf : x.isFinite = true) (hs : x.negative = false) :
    (Token.mk x.toString).isNumber = true := by
  obtain ⟨whole, fraction, hspells, -⟩ := spells_toString hf hs
  exact hspells.isNumber

theorem value_toString {x : Number} (hf : x.isFinite = true) (hs : x.negative = false) :
    (Token.mk x.toString).value = x := by
  obtain ⟨whole, fraction, hspells, hvalue⟩ := spells_toString hf hs
  rw [hspells.value, hvalue]

end Number

end EstimateSheet
