import Conform.Json.Number

/-! # Whole numbers as doubles

The units of a rounded quotient are its rounded significand, shifted back to its place. Whole numbers
below the safe limit are therefore exact. The double nearest to any other integer of 64 bits is still
whole and does not come down below the limit.
-/

set_option autoImplicit false

namespace Conform

theorem le_roundQuotient (num den : Nat) : num / den ≤ roundQuotient num den := by
  unfold roundQuotient
  split <;> omega

theorem roundQuotient_of_dvd {num den : Nat} (hPos : 0 < den) (h : den ∣ num) :
    roundQuotient num den = num / den := by
  unfold roundQuotient
  rw [Nat.mod_eq_zero_of_dvd h, if_pos (Or.inl (by omega))]

namespace Binary64

theorem eq_of_code_eq {x y : Binary64} (hSign : x.negative = y.negative) (hCode : x.code = y.code) :
    x = y := by
  cases x
  cases y
  subst hSign hCode
  rfl

/-- A code is a significand after the binades below it. A carry into the next binade fits as well. -/
theorem unitsOfCode_mul_add {shift significand : Nat} (hLe : significand ≤ 2 * binade)
    (hNormal : shift = 0 ∨ binade ≤ significand) :
    unitsOfCode (shift * binade + significand) = significand <<< shift := by
  have hBinade : 0 < binade := by decide
  rcases Nat.lt_or_ge significand binade with hLow | hHigh
  · obtain rfl : shift = 0 := hNormal.resolve_right (by omega)
    simp [unitsOfCode, hLow]
  · have hNotLow : ¬ shift * binade + significand < binade := by omega
    rcases Nat.eq_or_lt_of_le hLe with rfl | hBelow
    · have hCode : shift * binade + 2 * binade = (shift + 2) * binade := by rw [Nat.add_mul]
      rw [unitsOfCode, if_neg hNotLow, hCode, Nat.mul_mod_left, Nat.mul_div_left _ hBinade]
      simp only [Nat.add_zero, Nat.add_succ_sub_one, Nat.shiftLeft_eq, Nat.pow_succ]
      rw [Nat.mul_comm (2 ^ shift) 2, ← Nat.mul_assoc, Nat.mul_comm binade 2]
    · have hCode : shift * binade + significand = significand - binade + (shift + 1) * binade := by
        rw [Nat.add_mul]
        omega
      have hRest : significand - binade < binade := by omega
      rw [unitsOfCode, if_neg hNotLow, hCode, Nat.add_mul_mod_self_right,
        Nat.add_mul_div_right _ _ hBinade, Nat.mod_eq_of_lt hRest, Nat.div_eq_of_lt hRest,
        Nat.zero_add, Nat.add_sub_cancel, Nat.add_sub_cancel' hHigh]

theorem div_shiftLeft (num den shift : Nat) : num / den <<< shift = (num / den) >>> shift := by
  rw [Nat.shiftLeft_eq, Nat.shiftRight_eq_div_pow, Nat.div_div_eq_div_mul]

theorem roundQuotient_le_carry (num den : Nat) :
    roundQuotient num (den <<< ((num / den).log2 - 52)) ≤ 2 * binade := by
  have hBelow : num / den < 2 ^ (53 + ((num / den).log2 - 52)) :=
    Nat.lt_of_lt_of_le Nat.lt_log2_self (Nat.pow_le_pow_right (by decide) (by omega))
  have hQuotient : num / den / 2 ^ ((num / den).log2 - 52) < 2 * binade := by
    rw [Nat.div_lt_iff_lt_mul (Nat.two_pow_pos _), show 2 * binade = 2 ^ 53 from rfl, ← Nat.pow_add]
    exact hBelow
  have hRound := roundQuotient_le num (den <<< ((num / den).log2 - 52))
  rw [div_shiftLeft, Nat.shiftRight_eq_div_pow] at hRound
  omega

theorem binade_le_roundQuotient {num den : Nat} (h : (num / den).log2 - 52 ≠ 0) :
    binade ≤ roundQuotient num (den <<< ((num / den).log2 - 52)) := by
  have hNonzero : num / den ≠ 0 := by
    intro hZero
    simp [hZero] at h
  refine Nat.le_trans ?_ (le_roundQuotient _ _)
  rw [div_shiftLeft, Nat.shiftRight_eq_div_pow, Nat.le_div_iff_mul_le (Nat.two_pow_pos _),
    show binade = 2 ^ 52 from rfl, ← Nat.pow_add,
    show 52 + ((num / den).log2 - 52) = (num / den).log2 by omega]
  exact Nat.log2_self_le hNonzero

theorem unitsOfCode_nearestCode (num den : Nat) :
    unitsOfCode (nearestCode num den) =
      roundQuotient num (den <<< ((num / den).log2 - 52)) <<< ((num / den).log2 - 52) := by
  apply unitsOfCode_mul_add (roundQuotient_le_carry num den)
  rcases Nat.eq_zero_or_pos ((num / den).log2 - 52) with hZero | hPos
  · exact Or.inl hZero
  · exact Or.inr (binade_le_roundQuotient (by omega))

theorem log2_mul_unitsPerOne {n : Nat} (h : n ≠ 0) :
    (n * unitsPerOne).log2 = n.log2 + unitExponent := by
  have hUnits : unitsPerOne = 2 ^ unitExponent := Nat.one_shiftLeft _
  have hNonzero : n * unitsPerOne ≠ 0 := Nat.mul_ne_zero h (by decide)
  rw [Nat.log2_eq_iff hNonzero, hUnits]
  constructor
  · rw [Nat.pow_add]
    exact Nat.mul_le_mul_right _ (Nat.log2_self_le h)
  · rw [Nat.add_right_comm, Nat.pow_add]
    exact Nat.mul_lt_mul_of_pos_right Nat.lt_log2_self (Nat.two_pow_pos _)

theorem dvd_unitsPerOne {shift : Nat} (h : shift ≤ unitExponent) : 1 <<< shift ∣ unitsPerOne := by
  rw [Nat.one_shiftLeft, unitsPerOne, Nat.one_shiftLeft]
  exact Nat.pow_dvd_pow 2 h

theorem unitsPerOne_dvd {shift : Nat} (significand : Nat) (h : unitExponent ≤ shift) :
    significand <<< shift = significand <<< (shift - unitExponent) * unitsPerOne := by
  rw [unitsPerOne, Nat.one_shiftLeft, ← Nat.shiftLeft_eq, ← Nat.shiftLeft_add,
    Nat.sub_add_cancel h]

section Integers

variable {n : Int} (inWord : n.natAbs < wordLimit)

theorem units_ofInt :
    (ofInt n inWord).units =
      roundQuotient (n.natAbs * unitsPerOne) (1 <<< ((n.natAbs * unitsPerOne).log2 - 52)) <<<
        ((n.natAbs * unitsPerOne).log2 - 52) := by
  rw [units, ofInt, unitsOfCode_nearestCode, Nat.div_one]

theorem units_ofInt_of_lt (h : n.natAbs < Number.safeLimit) :
    (ofInt n inWord).units = n.natAbs * unitsPerOne := by
  have hShift : (n.natAbs * unitsPerOne).log2 - 52 ≤ unitExponent := by
    rcases Nat.eq_zero_or_pos n.natAbs with hZero | hPos
    · simp [hZero]
    · have hLog : n.natAbs.log2 < 53 := (Nat.log2_lt (by omega)).mpr h
      rw [log2_mul_unitsPerOne (by omega)]
      omega
  have hDvd := Nat.dvd_mul_left_of_dvd (dvd_unitsPerOne hShift) n.natAbs
  have hPos : 0 < 1 <<< ((n.natAbs * unitsPerOne).log2 - 52) := by
    rw [Nat.one_shiftLeft]
    exact Nat.two_pow_pos _
  rw [units_ofInt, roundQuotient_of_dvd hPos hDvd, Nat.shiftLeft_eq, ← Nat.one_shiftLeft,
    Nat.div_mul_cancel hDvd]

/-- Beyond the safe limit a significand of full length is shifted past the point. -/
theorem exists_units_ofInt (h : Number.safeLimit ≤ n.natAbs) :
    ∃ whole, Number.safeLimit ≤ whole ∧ (ofInt n inWord).units = whole * unitsPerOne := by
  have hNonzero : n.natAbs ≠ 0 := by
    intro hZero
    rw [hZero] at h
    exact absurd h (by decide)
  have hLog : 53 ≤ n.natAbs.log2 := by
    have := (Nat.log2_lt (k := 53) hNonzero).mp
    have hLimit : Number.safeLimit = 2 ^ 53 := rfl
    omega
  have hShift : unitExponent + 1 ≤ (n.natAbs * unitsPerOne).log2 - 52 := by
    rw [log2_mul_unitsPerOne hNonzero]
    omega
  have hShift' : (n.natAbs * unitsPerOne / 1).log2 - 52 ≠ 0 := by
    rw [Nat.div_one]
    omega
  have hSignificand := binade_le_roundQuotient hShift'
  rw [Nat.div_one] at hSignificand
  refine ⟨_, ?_, by rw [units_ofInt, unitsPerOne_dvd _ (by omega)]⟩
  calc
    Number.safeLimit = binade * 2 ^ 1 := rfl
    _ ≤ _ := Nat.mul_le_mul hSignificand (Nat.pow_le_pow_right (by decide) (by omega))
    _ = _ := (Nat.shiftLeft_eq _ _).symm

theorem isIntegral_ofInt : (ofInt n inWord).isIntegral = true := by
  rw [isIntegral, beq_iff_eq]
  rcases Nat.lt_or_ge n.natAbs Number.safeLimit with hSafe | hLarge
  · rw [units_ofInt_of_lt inWord hSafe, Nat.mul_mod_left]
  · obtain ⟨whole, _, hUnits⟩ := exists_units_ofInt inWord hLarge
    rw [hUnits, Nat.mul_mod_left]

theorem whole_ofInt_of_lt (h : n.natAbs < Number.safeLimit) :
    (ofInt n inWord).whole = n.natAbs := by
  rw [whole, units_ofInt_of_lt inWord h, Nat.mul_div_left _ (by decide)]

theorem safeLimit_le_whole_ofInt (h : Number.safeLimit ≤ n.natAbs) :
    Number.safeLimit ≤ (ofInt n inWord).whole := by
  obtain ⟨rest, hLe, hUnits⟩ := exists_units_ofInt inWord h
  rw [whole, hUnits, Nat.mul_div_left _ (by decide)]
  exact hLe

/-- A small whole number is the double nearest to itself alone. -/
theorem whole_ofInt_eq_iff {k : Nat} (hSmall : k < Number.safeLimit) :
    (ofInt n inWord).whole = k ↔ n.natAbs = k := by
  rcases Nat.lt_or_ge n.natAbs Number.safeLimit with hSafe | hLarge
  · rw [whole_ofInt_of_lt inWord hSafe]
  · have hWhole := safeLimit_le_whole_ofInt inWord hLarge
    omega

theorem code_ofInt_eq {k : Nat} (h : n.natAbs = k) :
    (ofInt n inWord).code = nearestCode (k * unitsPerOne) 1 := by
  rw [← h, ofInt]

theorem isZero_ofInt_iff : (ofInt n inWord).isZero = true ↔ n = 0 := by
  constructor
  · intro h
    have hCode : (ofInt n inWord).code = 0 := beq_iff_eq.mp h
    have hWhole : (ofInt n inWord).whole = 0 := by
      rw [whole, units, hCode]
      rfl
    exact Int.natAbs_eq_zero.mp ((whole_ofInt_eq_iff inWord (by decide)).mp hWhole)
  · intro h
    rw [isZero, beq_iff_eq, code_ofInt_eq inWord (Int.natAbs_eq_zero.mpr h)]
    decide +kernel

theorem ofInt_eq_one_iff : ofInt n inWord = one ↔ n = 1 := by
  constructor
  · intro h
    have hWhole : (ofInt n inWord).whole = 1 := by rw [h]; decide
    have hAbs := (whole_ofInt_eq_iff inWord (by decide)).mp hWhole
    have hSign : ¬ n < 0 := by
      have : decide (n < 0) = false := congrArg negative h
      simpa using this
    omega
  · intro h
    apply eq_of_code_eq
    · simp [ofInt, h, one]
    · rw [code_ofInt_eq inWord (show n.natAbs = 1 by omega)]
      decide +kernel

end Integers

theorem same_one_iff (x : Binary64) : x.same one = true ↔ x = one := by
  have hOne : one.isZero = false := rfl
  simp [same, hOne]

end Binary64

end Conform
