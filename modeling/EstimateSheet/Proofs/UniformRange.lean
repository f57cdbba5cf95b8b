import EstimateSheet.Proofs.EvalErrors
import EstimateSheet.Proofs.SignedRounding

/-!
# The range of uniform samples

A unit sample is exactly a number of steps of `2 ^ (-53)` (`Sampler.unitOfWord_units`). Its product
with the width of a range is rounded to no more than the exact width, even where the width itself
has been rounded up (`Sampler.offset_le`), so no sample is outside the range
(`Sampler.place_uniformAt`). The last sum can be rounded up to the upper end. Which words it happens
for is told by one of them, the one with all bits set (`Sampler.place_uniformAt_le`), and for ranges
around zero it does not happen, as numbers lie closer together near zero (`gap_mono`,
`Sampler.place_uniformAt_lt`).
-/

namespace EstimateSheet

namespace Number

section Gaps

/-- The next number is in the same binade or a later one. -/
theorem binade_le_of_quotient {binade binade' quotient quotient' : Nat}
    (hlow : binade = 0 ∨ 2 ^ 52 ≤ quotient) (hlt : quotient' < 2 ^ 53)
    (h : (quotient + 1) * 2 ^ binade = quotient' * 2 ^ binade') : binade ≤ binade' := by
  by_contra hgt
  have hquotient : 2 ^ 52 ≤ quotient := hlow.resolve_left (by omega)
  obtain ⟨more, rfl⟩ := Nat.exists_eq_add_of_lt (Nat.not_le.1 hgt)
  rw [Nat.add_assoc, Nat.pow_add, Nat.mul_left_comm, Nat.mul_comm] at h
  have heq := Nat.mul_right_cancel (Nat.two_pow_pos binade') h
  have htwo : 2 ≤ 2 ^ (more + 1) := Nat.le_self_pow (Nat.succ_ne_zero more) 2
  have hmul := Nat.mul_le_mul_left (quotient + 1) htwo
  omega

/-- The distance to the next number does not become smaller. -/
theorem gap_mono {m n : Nat} (h : m ≤ n) :
    magnitudeUnits (m + 1) + magnitudeUnits n ≤ magnitudeUnits (n + 1) + magnitudeUnits m := by
  induction n, h using Nat.le_induction with
  | base => exact Nat.le_refl _
  | succ n _ ih =>
    obtain ⟨binade, quotient, hlow, -, hunits, hnext⟩ := exists_quotient n
    obtain ⟨binade', quotient', -, hlt', hunits', hnext'⟩ := exists_quotient (n + 1)
    have hbinade := binade_le_of_quotient hlow hlt' (hnext.symm.trans hunits')
    have hstep := Nat.pow_le_pow_right Nat.two_pos hbinade
    rw [Nat.succ_mul] at hnext hnext'
    omega

/-- A factor below one makes a number at least one step smaller, if it is not among the least. -/
theorem nearestMagnitude_mul_le {magnitude k : Nat} (hk : k < 2 ^ 53)
    (h : 2 ^ 52 < magnitudeUnits (magnitude + 1)) :
    nearestMagnitude (k * magnitudeUnits (magnitude + 1)) (2 ^ 53) ≤ magnitude := by
  obtain ⟨binade, quotient, hlow, -, hunits, hnext⟩ := exists_quotient magnitude
  refine nearestMagnitude_le_of_lt (Nat.two_pow_pos 53) ?_
  have hgap : 2 ^ 52 * 2 ^ binade < magnitudeUnits (magnitude + 1) := by
    rcases hlow with rfl | hlow
    · rwa [Nat.pow_zero, Nat.mul_one]
    · rw [hnext]
      exact Nat.mul_lt_mul_of_pos_right (Nat.lt_succ_of_le hlow) (Nat.two_pow_pos binade)
  have hmul := Nat.mul_le_mul_right (magnitudeUnits (magnitude + 1)) (Nat.le_sub_one_of_lt hk)
  rw [Nat.succ_mul] at hnext
  omega

/-- A count that was rounded, times a factor below one, is no more than the count. -/
theorem magnitudeUnits_nearest_mul_le {count k : Nat} (hk : k < 2 ^ 53)
    (hfinite : nearestMagnitude count 1 < infiniteMagnitude) :
    magnitudeUnits (nearestMagnitude (k * magnitudeUnits (nearestMagnitude count 1)) (2 ^ 53)) ≤
      count := by
  obtain ⟨below, hle, hlt, hcases⟩ := nearestMagnitude_cases Nat.one_pos count
  rw [Nat.mul_one] at hle hlt
  rcases hcases with ⟨heq, -⟩ | ⟨heq, hup⟩
  · have hnearest : nearestMagnitude count 1 = below := by omega
    rw [hnearest]
    refine (magnitudeUnits_strictMono.monotone ?_).trans hle
    refine nearestMagnitude_le (Nat.two_pow_pos 53) ?_
    rw [Nat.mul_comm]
    exact Nat.mul_le_mul_left _ hk.le
  · -- rounded up from between two numbers that are more than a unit apart
    have hnearest : nearestMagnitude count 1 = below + 1 := by omega
    rw [hnearest]
    refine (magnitudeUnits_strictMono.monotone (nearestMagnitude_mul_le hk ?_)).trans hle
    rcases magnitudeUnits_succ_eq_or below with hnext | hnext
    · omega
    · omega

/-- A number that is not negative has a neighbour below. -/
theorem exists_below {x : Number} (hx : x.isFinite = true) (hlow : 0 ≤ x.units) {magnitude : Nat}
    (hhigh : x.units ≤ magnitudeUnits (magnitude + 1)) : ∃ y : Number, y.isFinite = true ∧
      y.units < x.units ∧
      x.units + magnitudeUnits magnitude ≤ y.units + magnitudeUnits (magnitude + 1) := by
  have hnext := magnitudeUnits_lt_succ magnitude
  have hunits := natAbs_units (x := x)
  rcases hmagnitude : x.magnitude with _ | below
  · have hone : (⟨true, 1, by decide⟩ : Number).units = -1 := by decide
    have hzero : x.units = 0 := units_eq_zero_iff.2 (beq_iff_eq.2 hmagnitude)
    exact ⟨⟨true, 1, by decide⟩, by decide, by omega, by omega⟩
  · have hfinite : below < infiniteMagnitude := by
      have hlt := isFinite_iff.1 hx
      omega
    have hlt := magnitudeUnits_lt_succ below
    rw [hmagnitude] at hunits
    have hle : below + 1 ≤ magnitude + 1 := magnitudeUnits_strictMono.le_iff_le.1 (by omega)
    have hgap := gap_mono (Nat.le_of_succ_le_succ hle)
    have hbelow : (⟨false, below, hfinite.trans (by decide)⟩ : Number).units =
        magnitudeUnits below := rfl
    exact ⟨⟨false, below, hfinite.trans (by decide)⟩, isFinite_iff.2 hfinite, by omega, by omega⟩

end Gaps

end Number

open Number

namespace Sampler

/-- The sample that is drawn with the word. -/
def uniformAt (low high : Number) (w : UInt64) : Number := unitOfWord w * (high - low) + low

theorem uniform_apply (low high : Number) (s : Source) :
    uniform low high s = some (uniformAt low high s.word, s.rest) :=
  rfl

/-- The number of steps of a unit sample. -/
def unitSteps (w : UInt64) : Nat := (w >>> 11).toNat

theorem unitSteps_lt (w : UInt64) : unitSteps w < 2 ^ 53 := by
  have hshift : unitSteps w = w.toNat >>> 11 := UInt64.toNat_shiftRight w 11
  have hlt := w.toNat_lt
  rw [hshift, Nat.shiftRight_eq_div_pow]
  omega

theorem unitSteps_le (w : UInt64) : unitSteps w ≤ unitSteps 0xFFFFFFFFFFFFFFFF := by
  have hmax : unitSteps 0xFFFFFFFFFFFFFFFF = 2 ^ 53 - 1 := by decide
  rw [hmax]
  exact Nat.le_sub_one_of_lt (unitSteps_lt w)

/-- A unit sample is exact. -/
theorem unitOfWord_units (w : UInt64) : (unitOfWord w).isFinite = true ∧
    magnitudeUnits (unitOfWord w).magnitude * 2 ^ 53 = unitSteps w * oneUnits := by
  obtain ⟨magnitude, hfinite, hunits⟩ :=
    exists_magnitudeUnits (unitSteps_lt w) 1021 (by decide)
  have hcount : unitSteps w * oneUnits = magnitudeUnits magnitude * 2 ^ 53 := by
    rw [hunits, Nat.mul_assoc, ← Nat.pow_add, oneUnits_eq]
  have hmagnitude : (unitOfWord w).magnitude = magnitude := by
    have hscale := nearestMagnitude_mul (magnitudeUnits magnitude) 1 (Nat.two_pow_pos 53)
    rw [← hcount, Nat.one_mul, nearestMagnitude_units hfinite] at hscale
    exact hscale
  rw [isFinite_iff, hmagnitude]
  exact ⟨hfinite, hcount.symm⟩

theorem unitOfWord_mul {x : Number} (hx : x.isFinite = true) (hpos : x.negative = false)
    (w : UInt64) :
    unitOfWord w * x = ofRatio false (unitSteps w * magnitudeUnits x.magnitude) (2 ^ 53) := by
  obtain ⟨hfinite, hunits⟩ := unitOfWord_units w
  have hproduct : magnitudeUnits (unitOfWord w).magnitude * magnitudeUnits x.magnitude * 2 ^ 53 =
      unitSteps w * magnitudeUnits x.magnitude * oneUnits := by
    rw [Nat.mul_right_comm, hunits, Nat.mul_right_comm]
  have hsign : ((unitOfWord w).negative != x.negative) = false := by
    rw [hpos]
    rfl
  have hnearest : nearestMagnitude
      (magnitudeUnits (unitOfWord w).magnitude * magnitudeUnits x.magnitude) oneUnits =
      nearestMagnitude (unitSteps w * magnitudeUnits x.magnitude) (2 ^ 53) := by
    rw [← nearestMagnitude_mul _ oneUnits (Nat.two_pow_pos 53), hproduct, Nat.mul_comm oneUnits,
      nearestMagnitude_mul _ _ oneUnits_pos]
  rw [mul_of_isFinite hfinite hx, hsign, ofRatio, ofRatio]
  simp only [hnearest]

section Range

variable {low high : Number}

/-- How far a sample is above the lower end, before it is rounded. -/
def offset (low high : Number) (w : UInt64) : Nat :=
  magnitudeUnits (nearestMagnitude (unitSteps w * magnitudeUnits (high - low).magnitude) (2 ^ 53))

theorem offset_mono (low high : Number) {w w' : UInt64} (h : unitSteps w ≤ unitSteps w') :
    offset low high w ≤ offset low high w' :=
  magnitudeUnits_strictMono.monotone
    (nearestMagnitude_mono (Nat.two_pow_pos 53) (Nat.mul_le_mul_right _ h))

variable (hlow : low.isFinite = true) (hhigh : high.isFinite = true)
  (hlt : low.units < high.units) (hspan : (high - low).isFinite = true)

include hlow hhigh hlt

theorem negative_sub : (high - low).negative = false := by
  rw [sub_of_isFinite hhigh hlow]
  exact negative_ofUnits (by omega)

include hspan

theorem offset_le (w : UInt64) : low.units + offset low high w ≤ high.units := by
  have hmagnitude :
      (high - low).magnitude = nearestMagnitude (high.units - low.units).natAbs 1 := by
    rw [sub_of_isFinite hhigh hlow, magnitude_ofUnits]
  have hle : offset low high w ≤ (high.units - low.units).natAbs := by
    rw [isFinite_iff, hmagnitude] at hspan
    rw [offset, hmagnitude]
    exact magnitudeUnits_nearest_mul_le (unitSteps_lt w) hspan
  omega

theorem uniformAt_eq (w : UInt64) :
    uniformAt low high w = ofUnits (offset low high w + low.units) false := by
  have hproduct := unitOfWord_mul hspan (negative_sub hlow hhigh hlt) w
  have hle : (unitOfWord w * (high - low)).magnitude ≤ (high - low).magnitude := by
    rw [hproduct]
    refine nearestMagnitude_le (Nat.two_pow_pos 53) ?_
    rw [Nat.mul_comm]
    exact Nat.mul_le_mul_left _ (unitSteps_lt w).le
  rw [uniformAt, add_of_isFinite (isFinite_of_magnitude_le hle hspan) hlow, hproduct]
  rfl

/-- Samples are within the range. -/
theorem place_uniformAt (w : UInt64) :
    low.place ≤ (uniformAt low high w).place ∧ (uniformAt low high w).place ≤ high.place := by
  have hle := offset_le hlow hhigh hlt hspan w
  rw [uniformAt_eq hlow hhigh hlt hspan]
  exact ⟨place_le_place_ofUnits hlow (by omega), place_ofUnits_le_place hhigh (by omega)⟩

/-- The word with all its bits set gives the largest sample. -/
theorem place_uniformAt_le (w : UInt64) :
    (uniformAt low high w).place ≤ (uniformAt low high 0xFFFFFFFFFFFFFFFF).place := by
  have hle := offset_mono low high (unitSteps_le w)
  rw [uniformAt_eq hlow hhigh hlt hspan, uniformAt_eq hlow hhigh hlt hspan]
  exact place_ofUnits_mono (by omega)

/-- Around zero, the numbers below the upper end are not farther apart than those below the width of
the range, so samples that are below in the exact sum stay below. -/
theorem place_uniformAt_lt (hzero : low.units ≤ 0 ∧ 0 ≤ high.units)
    (hexact : (high - low).units = high.units - low.units)
    (hwide : 2 ^ 52 < (high - low).units) (w : UInt64) :
    (uniformAt low high w).place < high.place := by
  have hunits := units_eq_magnitudeUnits (negative_sub hlow hhigh hlt)
  rcases hmagnitude : (high - low).magnitude with _ | magnitude
  · rw [hunits, hmagnitude] at hwide
    exact absurd hwide (by decide)
  · rw [hmagnitude] at hunits
    have hle : offset low high w ≤ magnitudeUnits magnitude := by
      rw [offset, hmagnitude]
      exact magnitudeUnits_strictMono.monotone (nearestMagnitude_mul_le (unitSteps_lt w) (by omega))
    have hbound : high.units ≤ magnitudeUnits (magnitude + 1) := by omega
    obtain ⟨y, hy, hylt, hgap⟩ := exists_below hhigh hzero.2 hbound
    rw [uniformAt_eq hlow hhigh hlt hspan]
    exact (place_ofUnits_le_place hy (by omega)).trans_lt (units_lt_units_iff.1 hylt)

end Range

end Sampler

namespace Builtin

open Sampler

/-- A uniform sample takes one word and is within the range. It can be the upper end, as the product
and the sum are rounded, but for no word if not for the one with all its bits set. It never is where
the range is around zero and its width is exact and not among the least numbers. -/
theorem uniform_between {args : List Value} {low high : Number} (hargs : argument args 0 = low)
    (hargs' : argument args 1 = high) (hlow : low.isFinite = true) (hhigh : high.isFinite = true)
    (hlt : low.lt high = true) (hspan : (high - low).isFinite = true) :
    (∀ s, (uniform.apply args).run s =
      some (.ok (.number (uniformAt low high s.word)), s.rest)) ∧
    (∀ w, (uniformAt low high w).isFinite = true ∧
      Number.between low high (uniformAt low high w) = true) ∧
    ((∀ w, (uniformAt low high w).lt high = true) ↔
      (uniformAt low high 0xFFFFFFFFFFFFFFFF).lt high = true) ∧
    (low.le 0 = true → Number.le 0 high = true → (high - low).units = high.units - low.units →
      2 ^ 52 < (high - low).units → ∀ w, (uniformAt low high w).lt high = true) := by
  have hunits := (lt_iff_units_lt hlow hhigh).1 hlt
  have hplace := place_uniformAt hlow hhigh hunits hspan
  have hfinite w := isFinite_of_place hlow hhigh (hplace w).1 (hplace w).2
  have hbelow w : (uniformAt low high w).lt high = true ↔
      (uniformAt low high w).place < high.place := by
    rw [lt_iff]
    exact ⟨fun h => h.2.2, fun h => ⟨isNaN_eq_false (hfinite w), isNaN_eq_false hhigh, h⟩⟩
  refine ⟨fun s => ?_, fun w => ⟨hfinite w, ?_⟩, ⟨fun h => h _, fun h w => ?_⟩,
    fun hzero hzero' hexact hwide w => ?_⟩
  · have happly : uniform.apply args = sampled (Sampler.uniform low high) := hargs ▸ hargs' ▸ rfl
    rw [happly, run_sampled, uniform_apply]
    rfl
  · rw [Number.between, Bool.and_eq_true, le_iff, le_iff]
    exact ⟨⟨isNaN_eq_false hlow, isNaN_eq_false (hfinite w), (hplace w).1⟩,
      isNaN_eq_false (hfinite w), isNaN_eq_false hhigh, (hplace w).2⟩
  · rw [hbelow] at h ⊢
    exact (place_uniformAt_le hlow hhigh hunits hspan w).trans_lt h
  · have hzeroFinite : (0 : Number).isFinite = true := by decide
    have hzeroUnits : (0 : Number).units = 0 := by decide
    rw [le_iff_units_le hlow hzeroFinite] at hzero
    rw [le_iff_units_le hzeroFinite hhigh] at hzero'
    rw [hbelow]
    exact place_uniformAt_lt hlow hhigh hunits hspan ⟨by omega, by omega⟩ hexact hwide w

/-- Between minus one and one no sample is one. -/
theorem uniform_between_one :
    (∀ s, (uniform.apply [.number (-1), .number 1]).run s =
      some (.ok (.number (uniformAt (-1) 1 s.word)), s.rest)) ∧
    ∀ w, Number.between (-1) 1 (uniformAt (-1) 1 w) = true ∧
      (uniformAt (-1) 1 w).lt 1 = true := by
  obtain ⟨hrun, hwithin, -, hzero⟩ :=
    @uniform_between [.number (-1), .number 1] (-1) 1 rfl rfl (by decide +kernel)
      (by decide +kernel) (by decide +kernel) (by decide +kernel)
  have hbelow := hzero (by decide +kernel) (by decide +kernel) (by decide +kernel)
    (by decide +kernel)
  exact ⟨hrun, fun w => ⟨(hwithin w).2, hbelow w⟩⟩

/-- Between one and the next number, and between `5` and `7`, the largest sample is the upper
end. -/
theorem uniform_reaches_high :
    let high : Number := ⟨false, 0x3FF0000000000001, by decide⟩
    (high.isFinite = true ∧ Number.lt 1 high = true ∧ (high - 1).isFinite = true) ∧
    (∃ s rest, (uniform.apply [.number 1, .number high]).run s =
      some (.ok (.number high), rest)) ∧
    (∃ s rest, (uniform.apply [.number 5, .number 7]).run s = some (.ok (.number 7), rest)) ∧
    ¬ high.lt high = true ∧ ¬ Number.lt 7 7 = true := by
  intro high
  have hreach {low high : Number} (h : uniformAt low high 0xFFFFFFFFFFFFFFFF = high) :
      ∃ s rest, (uniform.apply [.number low, .number high]).run s =
        some (.ok (.number high), rest) := by
    let s := Source.ofWords [0xFFFFFFFFFFFFFFFF]
    have hrun : (uniform.apply [.number low, .number high]).run s =
        some (.ok (.number (uniformAt low high 0xFFFFFFFFFFFFFFFF)), s.rest) := rfl
    rw [h] at hrun
    exact ⟨s, s.rest, hrun⟩
  exact ⟨by decide +kernel, hreach (by decide +kernel), hreach (by decide +kernel),
    by decide +kernel, by decide +kernel⟩

end Builtin

end EstimateSheet
