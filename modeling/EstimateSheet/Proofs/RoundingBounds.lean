import EstimateSheet.Proofs.DecimalText

/-!
# What is between two numbers is rounded to one of them

The exact value of a magnitude is its significand, shifted into its binade
(`magnitudeUnits_eq_significand`), and grows with the magnitude (`magnitudeUnits_strictMono`). A
ratio lies between two neighbours, and rounding takes the nearer one (`nearestMagnitude_cases`). So
it does not pass a number: what is at least a number stays so (`le_nearestMagnitude`), and what is
at most a number too (`nearestMagnitude_le`). Neighbours are apart by at least the larger one
divided by `2 ^ 53` (`magnitudeUnits_succ_le`), so a value may even fall short of a number by nearly
its `2 ^ 54`-th part and is still rounded to no less (`le_nearestMagnitude_of_close`).
-/

namespace EstimateSheet

namespace Number

theorem binadeSize_pos : 0 < binadeSize := by decide

theorem oneUnits_pos : 0 < oneUnits := by decide

/-- The leading bits of a finite magnitude, as a whole number. -/
def significand (magnitude : Nat) : Nat :=
  if magnitude / binadeSize = 0 then magnitude else binadeSize + magnitude % binadeSize

section Units

variable {magnitude other n : Nat}

theorem significand_pos (h : 0 < magnitude) : 0 < significand magnitude := by
  unfold significand
  split_ifs with hbinade
  · exact h
  · exact Nat.add_pos_left binadeSize_pos _

theorem significand_lt : significand magnitude < 2 ^ 53 := by
  have hsize : binadeSize = 2 ^ 52 := rfl
  have hmod := Nat.mod_lt magnitude binadeSize_pos
  have hsplit := Nat.div_add_mod magnitude binadeSize
  unfold significand
  split_ifs with hbinade
  · rw [hbinade] at hsplit
    omega
  · omega

theorem magnitudeUnits_eq_significand (magnitude : Nat) :
    magnitudeUnits magnitude = significand magnitude * 2 ^ (magnitude / binadeSize - 1) :=
  magnitudeUnits_eq magnitude

theorem log2_mul_pow (hn : n ≠ 0) (shift : Nat) : (n * 2 ^ shift).log2 = n.log2 + shift := by
  induction shift with
  | zero => rw [Nat.pow_zero, Nat.mul_one, Nat.add_zero]
  | succ shift ih =>
    have hpos := Nat.mul_pos (Nat.pos_of_ne_zero hn) (Nat.two_pow_pos shift)
    rw [Nat.pow_succ', Nat.mul_left_comm, Nat.log2_two_mul hpos.ne', ih, Nat.add_assoc]

theorem log2_magnitudeUnits (h : 0 < magnitude) : (magnitudeUnits magnitude).log2 =
    (significand magnitude).log2 + (magnitude / binadeSize - 1) := by
  rw [magnitudeUnits_eq_significand]
  exact log2_mul_pow (significand_pos h).ne' _

theorem log2_magnitudeUnits_lt (hfinite : magnitude < infiniteMagnitude) :
    (magnitudeUnits magnitude).log2 < 2098 := by
  rcases Nat.eq_zero_or_pos magnitude with rfl | h
  · decide
  · have hdigits := (Nat.log2_lt (significand_pos h).ne').2 significand_lt
    have hbinade : magnitude / binadeSize < 2047 := (Nat.div_lt_iff_lt_mul binadeSize_pos).2 hfinite
    rw [log2_magnitudeUnits h]
    omega

/-- Below the second binade the numbers are one unit apart. -/
theorem magnitudeUnits_of_lt (h : magnitude < binadeSize) :
    magnitudeUnits magnitude = magnitude := by
  rw [magnitudeUnits_eq_significand, significand, Nat.div_eq_of_lt h, if_pos rfl, Nat.zero_sub,
    Nat.pow_zero, Nat.mul_one]

/-- A magnitude in a later binade, as the place of the binade and how far it is beyond its start. -/
theorem exists_binade (h : binadeSize ≤ magnitude) : ∃ binade beyond, beyond < binadeSize ∧
    magnitude = binade * binadeSize + (binadeSize + beyond) ∧
    magnitudeUnits magnitude = (binadeSize + beyond) * 2 ^ binade := by
  have hne : magnitude / binadeSize ≠ 0 := (Nat.div_pos h binadeSize_pos).ne'
  obtain ⟨binade, hbinade⟩ := Nat.exists_eq_succ_of_ne_zero hne
  refine ⟨binade, magnitude % binadeSize, Nat.mod_lt _ binadeSize_pos, ?_, ?_⟩
  · rw [← Nat.add_assoc, ← Nat.succ_mul, ← hbinade, Nat.mul_comm, Nat.div_add_mod]
  · rw [magnitudeUnits_eq_significand, significand, if_neg hne, hbinade, Nat.succ_sub_one]

theorem magnitudeUnits_binade {binade significand : Nat} (hlow : 2 ^ 52 ≤ significand)
    (hhigh : significand < 2 ^ 53) :
    magnitudeUnits (binade * binadeSize + significand) = significand * 2 ^ binade := by
  have hsize : binadeSize = 2 ^ 52 := rfl
  have hlater : binadeSize ≤ binade * binadeSize + significand := by omega
  obtain ⟨binade', beyond, hbeyond, heq, hunits⟩ := exists_binade hlater
  rw [hsize] at heq hbeyond hunits
  obtain ⟨rfl, rfl⟩ : binade' = binade ∧ 2 ^ 52 + beyond = significand := by omega
  rw [hsize]
  exact hunits

/-- The exact value of the first number in a later binade. -/
theorem magnitudeUnits_succ (binade : Nat) :
    magnitudeUnits ((binade + 1) * binadeSize) = 2 ^ (52 + binade) := by
  rw [Nat.succ_mul, Nat.pow_add]
  exact magnitudeUnits_binade (Nat.le_refl _) (by decide)

theorem magnitudeUnits_small {magnitude : Nat} (h : magnitude < 2 ^ 53) :
    magnitudeUnits magnitude = magnitude := by
  rcases Nat.lt_or_ge magnitude (2 ^ 52) with hlow | hlow
  · exact magnitudeUnits_of_lt hlow
  · have hunits : magnitudeUnits (0 * binadeSize + magnitude) = magnitude * 2 ^ 0 :=
      magnitudeUnits_binade hlow h
    rwa [Nat.zero_mul, Nat.zero_add, Nat.pow_zero, Nat.mul_one] at hunits

end Units

section Binades

variable {binade quotient : Nat}

/-- The quotient can be one more than a significand. It is the first of the next binade then. -/
theorem magnitudeUnits_quotient (hlow : binade = 0 ∨ 2 ^ 52 ≤ quotient)
    (hhigh : quotient ≤ 2 ^ 53) :
    magnitudeUnits (binade * binadeSize + quotient) = quotient * 2 ^ binade := by
  have hsize : binadeSize = 2 ^ 52 := rfl
  rcases Nat.eq_or_lt_of_le hhigh with rfl | hlt
  · have hnext : binade * binadeSize + 2 ^ 53 = (binade + 1 + 1) * binadeSize := by
      rw [hsize]
      omega
    rw [hnext, magnitudeUnits_succ, ← Nat.pow_add]
    congr 1
    omega
  · rcases Nat.lt_or_ge quotient (2 ^ 52) with hfirst | hlater
    · obtain rfl : binade = 0 := hlow.resolve_right (by omega)
      rw [Nat.zero_mul, Nat.zero_add, Nat.pow_zero, Nat.mul_one]
      exact magnitudeUnits_of_lt hfirst
    · exact magnitudeUnits_binade hlater hlt

theorem exists_quotient (magnitude : Nat) : ∃ binade quotient,
    (binade = 0 ∨ 2 ^ 52 ≤ quotient) ∧ quotient < 2 ^ 53 ∧
    magnitudeUnits magnitude = quotient * 2 ^ binade ∧
    magnitudeUnits (magnitude + 1) = (quotient + 1) * 2 ^ binade := by
  have hsize : binadeSize = 2 ^ 52 := rfl
  rcases Nat.lt_or_ge magnitude binadeSize with hfirst | hlater
  · rw [hsize] at hfirst
    refine ⟨0, magnitude, .inl rfl, by omega, ?_, ?_⟩
    · rw [magnitudeUnits_small (by omega), Nat.pow_zero, Nat.mul_one]
    · rw [magnitudeUnits_small (by omega), Nat.pow_zero, Nat.mul_one]
  · obtain ⟨binade, beyond, hbeyond, heq, hunits⟩ := exists_binade hlater
    rw [hsize] at hbeyond
    refine ⟨binade, binadeSize + beyond, .inr (by omega), by omega, hunits, ?_⟩
    rw [heq, Nat.add_assoc]
    exact magnitudeUnits_quotient (.inr (by omega)) (by omega)

theorem magnitudeUnits_lt_succ (magnitude : Nat) :
    magnitudeUnits magnitude < magnitudeUnits (magnitude + 1) := by
  obtain ⟨binade, quotient, -, -, hunits, hnext⟩ := exists_quotient magnitude
  rw [hunits, hnext]
  exact Nat.mul_lt_mul_of_pos_right (Nat.lt_succ_self quotient) (Nat.two_pow_pos binade)

theorem magnitudeUnits_strictMono : StrictMono magnitudeUnits :=
  strictMono_nat_of_lt_succ magnitudeUnits_lt_succ

/-- Neighbours are not very near to each other. -/
theorem magnitudeUnits_succ_le (magnitude : Nat) : magnitudeUnits (magnitude + 1) ≤
    2 ^ 53 * (magnitudeUnits (magnitude + 1) - magnitudeUnits magnitude) := by
  obtain ⟨binade, quotient, -, hlt, hunits, hnext⟩ := exists_quotient magnitude
  rw [hunits, hnext, ← Nat.sub_mul, Nat.add_sub_cancel_left, Nat.one_mul]
  exact Nat.mul_le_mul_right _ hlt

/-- Neighbours that are not one unit apart are near to each other. -/
theorem magnitudeUnits_succ_eq_or (magnitude : Nat) :
    magnitudeUnits (magnitude + 1) = magnitudeUnits magnitude + 1 ∨
      2 ^ 52 * (magnitudeUnits (magnitude + 1) - magnitudeUnits magnitude) ≤
        magnitudeUnits magnitude := by
  obtain ⟨binade, quotient, hlow, -, hunits, hnext⟩ := exists_quotient magnitude
  rw [hunits, hnext, ← Nat.sub_mul, Nat.add_sub_cancel_left, Nat.one_mul]
  rcases hlow with rfl | hlow
  · rw [Nat.pow_zero, Nat.mul_one, Nat.mul_one]
    exact .inl rfl
  · exact .inr (Nat.mul_le_mul_right _ hlow)

end Binades

section Rounding

variable {num den magnitude : Nat}

theorem quotient_eq (num den cut : Nat) : num / (den <<< cut) = num / den / 2 ^ cut := by
  rw [Nat.shiftLeft_eq, Nat.div_div_eq_div_mul]

theorem quotient_bounds (value : Nat) : value / 2 ^ (value.log2 - 52) < 2 ^ 53 ∧
    (value.log2 - 52 = 0 ∨ 2 ^ 52 ≤ value / 2 ^ (value.log2 - 52)) := by
  rcases Nat.eq_zero_or_pos value with rfl | hpos
  · exact ⟨by decide, .inl rfl⟩
  refine ⟨?_, ?_⟩
  · rw [Nat.div_lt_iff_lt_mul (Nat.two_pow_pos _), ← Nat.pow_add]
    exact (Nat.log2_lt hpos.ne').1 (by omega)
  · rcases Nat.eq_zero_or_pos (value.log2 - 52) with hzero | hcut
    · exact .inl hzero
    · rw [Nat.le_div_iff_mul_le (Nat.two_pow_pos _), ← Nat.pow_add]
      exact .inr ((Nat.le_log2 hpos.ne').1 (by omega))

/-- A ratio lies between two neighbours, and it is rounded to the nearer one of them. -/
theorem nearestMagnitude_cases (hden : 0 < den) (num : Nat) : ∃ below,
    magnitudeUnits below * den ≤ num ∧ num < magnitudeUnits (below + 1) * den ∧
    (nearestMagnitude num den = min infiniteMagnitude below ∧
        2 * num ≤ (magnitudeUnits below + magnitudeUnits (below + 1)) * den ∨
      nearestMagnitude num den = min infiniteMagnitude (below + 1) ∧
        (magnitudeUnits below + magnitudeUnits (below + 1)) * den ≤ 2 * num) := by
  obtain ⟨hhigh, hlow⟩ := quotient_bounds (num / den)
  rw [← quotient_eq] at hhigh hlow
  generalize hcut : (num / den).log2 - 52 = cut at hhigh hlow
  generalize hstep : den <<< cut = step at hhigh hlow
  have hbelow := magnitudeUnits_quotient hlow hhigh.le
  have habove : magnitudeUnits (cut * binadeSize + (num / step + 1)) = (num / step + 1) * 2 ^ cut :=
    magnitudeUnits_quotient (hlow.imp_right Nat.le_succ_of_le) hhigh
  have hscale : ∀ quotient, quotient * 2 ^ cut * den = quotient * step := by
    intro quotient
    rw [← hstep, Nat.shiftLeft_eq, Nat.mul_comm den, Nat.mul_assoc]
  have hpos : 0 < step := by
    rw [← hstep, Nat.shiftLeft_eq]
    exact Nat.mul_pos hden (Nat.two_pow_pos cut)
  have hrest := Nat.mod_lt num hpos
  have hsplit := Nat.div_add_mod' num step
  refine ⟨cut * binadeSize + num / step, ?_, ?_, ?_⟩
  · rw [hbelow, hscale]
    omega
  · rw [Nat.add_assoc, habove, hscale, Nat.succ_mul]
    omega
  · rw [Nat.add_assoc _ _ 1, habove, hbelow, Nat.add_mul, hscale, hscale, Nat.succ_mul (num / step)]
    simp only [nearestMagnitude, hcut, hstep]
    split_ifs with hup
    · refine .inr ⟨rfl, ?_⟩
      simp only [Bool.or_eq_true, decide_eq_true_eq, Bool.and_eq_true, beq_iff_eq] at hup
      omega
    · refine .inl ⟨rfl, ?_⟩
      simp only [Bool.or_eq_true, decide_eq_true_eq, not_or, Nat.not_lt] at hup
      omega

/-- What is at least a number is rounded to no less. -/
theorem le_nearestMagnitude (hden : 0 < den) (hm : magnitude ≤ infiniteMagnitude)
    (h : magnitudeUnits magnitude * den ≤ num) : magnitude ≤ nearestMagnitude num den := by
  obtain ⟨below, -, hlt, hcases⟩ := nearestMagnitude_cases hden num
  have hbelow : magnitude < below + 1 :=
    magnitudeUnits_strictMono.lt_iff_lt.1 (Nat.lt_of_mul_lt_mul_right (h.trans_lt hlt))
  rcases hcases with ⟨heq, -⟩ | ⟨heq, -⟩ <;> omega

/-- What is at most a number is rounded to no more. -/
theorem nearestMagnitude_le (hden : 0 < den) (h : num ≤ magnitudeUnits magnitude * den) :
    nearestMagnitude num den ≤ magnitude := by
  obtain ⟨below, hle, hlt, hcases⟩ := nearestMagnitude_cases hden num
  have hbelow : below ≤ magnitude :=
    magnitudeUnits_strictMono.le_iff_le.1 (Nat.le_of_mul_le_mul_right (hle.trans h) hden)
  rcases hcases with ⟨heq, -⟩ | ⟨heq, hup⟩
  · omega
  · -- it is rounded up, so it is not the smaller neighbour
    rcases Nat.eq_or_lt_of_le hbelow with rfl | hnext
    · rw [Nat.add_mul] at hup
      omega
    · omega

/-- What is nearer to the larger of two neighbours is rounded to no less than that. -/
theorem lt_nearestMagnitude (hden : 0 < den) (hm : magnitude < infiniteMagnitude)
    (h : (magnitudeUnits magnitude + magnitudeUnits (magnitude + 1)) * den < 2 * num) :
    magnitude < nearestMagnitude num den := by
  obtain ⟨below, -, hnum, hcases⟩ := nearestMagnitude_cases hden num
  rcases Nat.lt_trichotomy magnitude below with hlt | rfl | hgt
  · rcases hcases with ⟨heq, -⟩ | ⟨heq, -⟩ <;> omega
  · rcases hcases with ⟨-, hle⟩ | ⟨heq, -⟩ <;> omega
  · -- then the ratio would be below both neighbours
    have hle : below + 1 ≤ magnitude := hgt
    have hmono := Nat.mul_le_mul_right den (magnitudeUnits_strictMono.monotone hle)
    have hnext := Nat.mul_le_mul_right den (magnitudeUnits_lt_succ magnitude).le
    rw [Nat.add_mul] at h
    omega

/-- What is nearer to the smaller of two neighbours is rounded to no more than that. -/
theorem nearestMagnitude_le_of_lt (hden : 0 < den)
    (h : 2 * num < (magnitudeUnits magnitude + magnitudeUnits (magnitude + 1)) * den) :
    nearestMagnitude num den ≤ magnitude := by
  obtain ⟨below, hle, -, hcases⟩ := nearestMagnitude_cases hden num
  rcases Nat.lt_trichotomy below magnitude with hlt | rfl | hgt
  · rcases hcases with ⟨heq, -⟩ | ⟨heq, -⟩ <;> omega
  · rcases hcases with ⟨heq, -⟩ | ⟨-, hup⟩ <;> omega
  · -- then the ratio would be above both neighbours
    have hge : magnitude + 1 ≤ below := hgt
    have hmono := Nat.mul_le_mul_right den (magnitudeUnits_strictMono.monotone hge)
    have hnext := Nat.mul_le_mul_right den (magnitudeUnits_lt_succ magnitude).le
    rw [Nat.add_mul] at h
    omega

/-- Rounding makes up for what a value falls short of a number, if that is little. -/
theorem le_nearestMagnitude_of_close (hden : 0 < den) (hm : magnitude ≤ infiniteMagnitude)
    (h : (2 ^ 54 - 1) * (magnitudeUnits magnitude * den) < 2 ^ 54 * num) :
    magnitude ≤ nearestMagnitude num den := by
  rcases magnitude with _ | magnitude
  · exact Nat.zero_le _
  · refine lt_nearestMagnitude hden hm ?_
    have hgap := Nat.mul_le_mul_right den (magnitudeUnits_succ_le magnitude)
    have hlt := Nat.mul_le_mul_right den (magnitudeUnits_lt_succ magnitude).le
    rw [Nat.mul_assoc, Nat.sub_mul] at hgap
    rw [Nat.add_mul]
    omega

end Rounding

end Number

end EstimateSheet
