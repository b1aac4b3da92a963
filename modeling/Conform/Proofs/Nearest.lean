import Conform.Proofs.Rounding
import Mathlib.Algebra.Order.Field.Rat
import Mathlib.Algebra.Order.Group.Abs
import Mathlib.Data.Nat.Cast.Order.Field
import Mathlib.Order.Monotone.Basic
import Mathlib.Tactic.FieldSimp
import Mathlib.Tactic.Linarith
import Mathlib.Tactic.Positivity
import Mathlib.Tactic.Ring

/-! # The nearest double

The units of codes grow with the codes, and a rounded quotient lies within half a step of its binade.
So its code is the nearest of all codes, of two the even one, and no other code is. The codes beyond the
finite ones take part, as if exponents had no end: a magnitude overflows if its nearest code is one of
them.
-/

set_option autoImplicit false

namespace Conform

section Grid

/-- A multiple of the step within half a step is the nearest multiple. There is a tie only at the half. -/
theorem abs_sub_le_of_half_step {step r : ℚ} {q : ℕ} (hStep : 0 < step)
    (hHalf : |q * step - r| ≤ step / 2) (k : ℕ) :
    |q * step - r| ≤ |k * step - r| ∧
      (k ≠ q → |q * step - r| = |k * step - r| → |q * step - r| = step / 2) := by
  rcases eq_or_ne k q with rfl | hNe
  · exact ⟨le_rfl, fun h => absurd rfl h⟩
  · have hApart : (1 : ℚ) ≤ |(k : ℚ) - q| := by
      have hInt : (1 : ℤ) ≤ |(k : ℤ) - q| := Int.one_le_abs (by omega)
      exact_mod_cast hInt
    have hSteps : step ≤ |k * step - r| + |q * step - r| := by
      calc
        step = 1 * step := (one_mul step).symm
        _ ≤ |(k : ℚ) - q| * step := mul_le_mul_of_nonneg_right hApart hStep.le
        _ = |k * step - q * step| := by rw [← sub_mul, abs_mul, abs_of_pos hStep]
        _ ≤ |k * step - r| + |r - q * step| := abs_sub_le _ _ _
        _ = |k * step - r| + |q * step - r| := by rw [abs_sub_comm r]
    constructor
    · linarith
    · intro _ hTie
      linarith

/-- Rounding a quotient misses it by half the divisor at most, and by half only at an even result. -/
theorem abs_roundQuotient_sub_le {num den : ℕ} (hDen : 0 < den) :
    |(roundQuotient num den : ℚ) * den - num| ≤ den / 2 ∧
      (|(roundQuotient num den : ℚ) * den - num| = den / 2 → roundQuotient num den % 2 = 0) := by
  have hNum : (num : ℚ) = den * (num / den : ℕ) + (num % den : ℕ) := by
    exact_mod_cast (Nat.div_add_mod num den).symm
  have hMod := Nat.mod_lt num hDen
  unfold roundQuotient
  split
  · rename_i hDown
    have hError : |((num / den : ℕ) : ℚ) * den - num| = (num % den : ℕ) := by
      rw [hNum, mul_comm, sub_add_cancel_left, abs_neg, Nat.abs_cast]
    have hTwice : 2 * ((num % den : ℕ) : ℚ) ≤ den := by exact_mod_cast (by omega)
    rw [hError]
    constructor
    · linarith
    · intro hTie
      have hEq : 2 * ((num % den : ℕ) : ℚ) = den := by linarith
      have : 2 * (num % den) = den := by exact_mod_cast hEq
      omega
  · rename_i hUp
    have hError : |((num / den + 1 : ℕ) : ℚ) * den - num| = den - (num % den : ℕ) := by
      have hLe : ((num % den : ℕ) : ℚ) ≤ den := by exact_mod_cast hMod.le
      rw [hNum, abs_of_nonneg] <;> push_cast <;> linarith
    have hTwice : (den : ℚ) ≤ 2 * ((num % den : ℕ) : ℚ) := by exact_mod_cast (by omega)
    rw [hError]
    constructor
    · linarith
    · intro hTie
      have hEq : 2 * ((num % den : ℕ) : ℚ) = den := by linarith
      have : 2 * (num % den) = den := by exact_mod_cast hEq
      omega

end Grid

section Signs

variable (negative : Bool)

theorem abs_sign_mul {m : ℚ} (h : 0 ≤ m) : |(if negative then -1 else 1) * m| = m := by
  rw [abs_mul, abs_of_nonneg h]
  split
  · rw [abs_neg, abs_one, one_mul]
  · rw [abs_one, one_mul]

theorem sign_mul_natCast (m : ℕ) :
    (if negative then -1 else 1) * (m : ℚ) = ((if negative then -(m : ℤ) else m : ℤ) : ℚ) := by
  split
  · push_cast
    rw [neg_one_mul]
  · push_cast
    rw [one_mul]

end Signs

namespace Binary64

section Codes

/-- Every code is a significand after the binades below it. -/
theorem exists_significand (code : ℕ) : ∃ shift significand, code = shift * binade + significand ∧
    significand < 2 * binade ∧ (shift = 0 ∨ binade ≤ significand) := by
  have hSplit := Nat.div_add_mod code binade
  have hMod : code % binade < binade := Nat.mod_lt _ (by decide)
  rcases Nat.eq_zero_or_pos (code / binade) with hZero | hPos
  · refine ⟨0, code, by omega, ?_, Or.inl rfl⟩
    rw [hZero] at hSplit
    omega
  · refine ⟨code / binade - 1, binade + code % binade, ?_, by omega, Or.inr (by omega)⟩
    obtain ⟨shift, hShift⟩ := Nat.exists_eq_add_of_le' hPos
    rw [hShift, Nat.mul_add, Nat.mul_one] at hSplit
    rw [hShift, Nat.add_sub_cancel, Nat.mul_comm shift]
    omega

theorem strictMono_unitsOfCode : StrictMono unitsOfCode := by
  apply strictMono_nat_of_lt_succ
  intro code
  obtain ⟨shift, significand, rfl, hLt, hNormal⟩ := exists_significand code
  rw [Nat.add_assoc, unitsOfCode_mul_add hLt.le hNormal,
    unitsOfCode_mul_add hLt (hNormal.imp_right Nat.le_succ_of_le), Nat.shiftLeft_eq,
    Nat.shiftLeft_eq]
  exact Nat.mul_lt_mul_of_pos_right (Nat.lt_succ_self _) (Nat.two_pow_pos shift)

/-- The units of a code lie on the grid of a binade or below the binade. -/
theorem dvd_unitsOfCode_or_lt (shift code : ℕ) :
    2 ^ shift ∣ unitsOfCode code ∨ 0 < shift ∧ unitsOfCode code < binade * 2 ^ shift := by
  obtain ⟨own, significand, rfl, hLt, hNormal⟩ := exists_significand code
  rw [unitsOfCode_mul_add hLt.le hNormal, Nat.shiftLeft_eq]
  rcases Nat.lt_or_ge own shift with hBelow | hFine
  · refine Or.inr ⟨by omega, ?_⟩
    calc
      significand * 2 ^ own < 2 * binade * 2 ^ own :=
        Nat.mul_lt_mul_of_pos_right hLt (Nat.two_pow_pos own)
      _ = binade * 2 ^ (own + 1) := by rw [Nat.pow_succ']; ring
      _ ≤ binade * 2 ^ shift := Nat.mul_le_mul_left _ (Nat.pow_le_pow_right (by decide) hBelow)
  · exact Or.inl (Nat.dvd_mul_left_of_dvd (Nat.pow_dvd_pow 2 hFine) significand)

end Codes

/-- No code has units nearer to the given amount, and only an even one has a rival that is as near. -/
structure IsNearestCode (r : ℚ) (code : ℕ) : Prop where
  nearest : ∀ other, |(unitsOfCode code : ℚ) - r| ≤ |(unitsOfCode other : ℚ) - r|
  even_of_tie : ∀ other, other ≠ code →
    |(unitsOfCode code : ℚ) - r| = |(unitsOfCode other : ℚ) - r| → code % 2 = 0

namespace IsNearestCode

variable {r : ℚ} {code other : ℕ}

theorem units_le_of_lt (h : code < other) : (unitsOfCode code : ℚ) < unitsOfCode other := by
  exact_mod_cast strictMono_unitsOfCode h

theorem le_of_units_le (h : IsNearestCode r code) (hLe : (unitsOfCode other : ℚ) ≤ r) :
    other ≤ code := by
  by_contra hLt
  have hUnits := units_le_of_lt (Nat.lt_of_not_le hLt)
  have hNear := h.nearest other
  rw [abs_of_nonpos (by linarith), abs_of_nonpos (by linarith)] at hNear
  linarith

theorem le_of_le_units (h : IsNearestCode r code) (hLe : r ≤ (unitsOfCode other : ℚ)) :
    code ≤ other := by
  by_contra hLt
  have hUnits := units_le_of_lt (Nat.lt_of_not_le hLt)
  have hNear := h.nearest other
  rw [abs_of_nonneg (by linarith), abs_of_nonneg (by linarith)] at hNear
  linarith

/-- Of two nearest codes both would be even, and the code between them nearer than either. -/
theorem not_lt (h : IsNearestCode r code) (hOther : IsNearestCode r other) : ¬ code < other := by
  intro hLt
  have hTie := le_antisymm (h.nearest other) (hOther.nearest code)
  have hEven := h.even_of_tie other hLt.ne' hTie
  have hOtherEven := hOther.even_of_tie code hLt.ne hTie.symm
  have hLow := units_le_of_lt (Nat.lt_succ_self code)
  have hHigh := units_le_of_lt (show code + 1 < other by omega)
  have hBelow : (unitsOfCode code : ℚ) < r := by
    by_contra hNot
    rw [abs_of_nonneg (by linarith), abs_of_nonneg (by linarith)] at hTie
    linarith
  have hAbove : r < (unitsOfCode other : ℚ) := by
    by_contra hNot
    rw [abs_of_nonpos (by linarith), abs_of_nonpos (by linarith)] at hTie
    linarith
  have hBetween := h.nearest (code + 1)
  rw [abs_of_neg (by linarith), abs_of_pos (by linarith)] at hTie
  rw [abs_of_neg (by linarith)] at hBetween
  have hBetween' := hBetween.not_gt
  exact hBetween' (abs_lt.mpr ⟨by linarith, by linarith⟩)

theorem unique (h : IsNearestCode r code) (hOther : IsNearestCode r other) : code = other :=
  Nat.le_antisymm (Nat.not_lt.mp (hOther.not_lt h)) (Nat.not_lt.mp (h.not_lt hOther))

end IsNearestCode

theorem isNearestCode_zero {r : ℚ} (hNonneg : 0 ≤ r) (hHalf : r < 1 / 2) : IsNearestCode r 0 := by
  have hFar : ∀ other, other ≠ 0 →
      |(unitsOfCode 0 : ℚ) - r| < |(unitsOfCode other : ℚ) - r| := by
    intro other hOther
    have hUnits : (1 : ℚ) ≤ unitsOfCode other := by
      exact_mod_cast Nat.lt_of_le_of_lt (Nat.zero_le _)
        (strictMono_unitsOfCode (Nat.pos_of_ne_zero hOther))
    have hZero : unitsOfCode 0 = 0 := rfl
    rw [hZero, Nat.cast_zero, zero_sub, abs_neg, abs_of_nonneg hNonneg, abs_of_nonneg] <;> linarith
  constructor
  · intro other
    rcases eq_or_ne other 0 with rfl | hOther
    · exact le_rfl
    · exact (hFar other hOther).le
  · intro other hOther hTie
    exact absurd hTie (hFar other hOther).ne

section Quotient

variable {num den : ℕ}

/-- The rounded significand misses the quotient by half a step of its binade at most. -/
theorem abs_significand_sub_le (hDen : 0 < den) (shift : ℕ) :
    |(roundQuotient num (den <<< shift) : ℚ) * 2 ^ shift - num / den| ≤ 2 ^ shift / 2 ∧
      (|(roundQuotient num (den <<< shift) : ℚ) * 2 ^ shift - num / den| = 2 ^ shift / 2 →
        roundQuotient num (den <<< shift) % 2 = 0) := by
  have hPos : (0 : ℚ) < den := by exact_mod_cast hDen
  have hStepped : 0 < den <<< shift := by
    rw [Nat.shiftLeft_eq]
    positivity
  have hRound := @abs_roundQuotient_sub_le num _ hStepped
  have hScale : |(roundQuotient num (den <<< shift) : ℚ) * (den <<< shift : ℕ) - num| =
      |(roundQuotient num (den <<< shift) : ℚ) * 2 ^ shift - num / den| * den := by
    rw [← abs_of_pos hPos, ← abs_mul, abs_of_pos hPos, Nat.shiftLeft_eq]
    push_cast
    congr 1
    field_simp
  have hHalf : ((den <<< shift : ℕ) : ℚ) / 2 = 2 ^ shift / 2 * den := by
    rw [Nat.shiftLeft_eq]
    push_cast
    ring
  rw [hScale, hHalf] at hRound
  exact ⟨le_of_mul_le_mul_right hRound.1 hPos, fun hTie => hRound.2 (by rw [hTie])⟩

theorem binade_le_div (h : 0 < (num / den).log2 - 52) :
    binade * 2 ^ ((num / den).log2 - 52) ≤ num / den := by
  have hNonzero : num / den ≠ 0 := by
    intro hZero
    simp [hZero] at h
  calc
    binade * 2 ^ ((num / den).log2 - 52) = 2 ^ (52 + ((num / den).log2 - 52)) := by
      rw [Nat.pow_add]
      rfl
    _ = 2 ^ (num / den).log2 := by rw [Nat.add_sub_cancel' (by omega)]
    _ ≤ num / den := Nat.log2_self_le hNonzero

theorem isNearestCode_nearestCode (num : ℕ) (hDen : 0 < den) :
    IsNearestCode (num / den) (nearestCode num den) := by
  have hUnits := unitsOfCode_nearestCode num den
  have hParity : nearestCode num den % 2 =
      roundQuotient num (den <<< ((num / den).log2 - 52)) % 2 := by
    rw [nearestCode, binade]
    omega
  have hBinade := @binade_le_div num den
  obtain ⟨hHalf, hEven⟩ := @abs_significand_sub_le num den hDen ((num / den).log2 - 52)
  rw [← hParity] at hEven
  generalize (num / den).log2 - 52 = shift at hUnits hBinade hHalf hEven
  generalize roundQuotient num (den <<< shift) = q at hUnits hHalf hEven
  generalize nearestCode num den = code at hUnits hEven
  have hUnits' : (unitsOfCode code : ℚ) = q * 2 ^ shift := by
    rw [hUnits, Nat.shiftLeft_eq]
    push_cast
    rfl
  have hGrid := abs_sub_le_of_half_step (by positivity : (0 : ℚ) < 2 ^ shift) hHalf
  rw [← hUnits'] at hGrid hEven
  have hNear : ∀ other, |(unitsOfCode code : ℚ) - num / den| ≤
      |(unitsOfCode other : ℚ) - num / den| ∧ (other ≠ code →
        |(unitsOfCode code : ℚ) - num / den| = |(unitsOfCode other : ℚ) - num / den| →
          code % 2 = 0) := by
    intro other
    rcases dvd_unitsOfCode_or_lt shift other with ⟨k, hk⟩ | ⟨hShift, hBelow⟩
    · have hOther : (unitsOfCode other : ℚ) = k * 2 ^ shift := by
        rw [hk]
        push_cast
        ring
      rw [hOther]
      refine ⟨(hGrid k).1, fun hNe hTie => hEven ((hGrid k).2 ?_ hTie)⟩
      rintro rfl
      apply hNe
      apply strictMono_unitsOfCode.injective
      exact_mod_cast hOther.trans hUnits'.symm
    · -- The foot of the binade lies between the other code and the quotient.
      have hFoot : ((binade * 2 ^ shift : ℕ) : ℚ) ≤ num / den :=
        le_trans (by exact_mod_cast hBinade hShift) Nat.cast_div_le
      have hBelow' : (unitsOfCode other : ℚ) < (binade * 2 ^ shift : ℕ) := by exact_mod_cast hBelow
      have hStrict : |(unitsOfCode code : ℚ) - num / den| <
          |(unitsOfCode other : ℚ) - num / den| := by
        refine lt_of_le_of_lt (hGrid binade).1 ?_
        push_cast at hFoot hBelow'
        rw [abs_of_nonpos (by linarith), abs_of_nonpos (by linarith)]
        linarith
      exact ⟨hStrict.le, fun _ hTie => absurd hTie hStrict.ne⟩
  exact ⟨fun other => (hNear other).1, fun other => (hNear other).2⟩

end Quotient

section Overflow

variable {r : ℚ} {code : ℕ}

/-- Every magnitude has a nearest code, which may lie beyond the finite ones. -/
theorem exists_isNearestCode (h : 0 ≤ r) : ∃ code, IsNearestCode r code := by
  obtain ⟨num, hNum⟩ := Int.eq_ofNat_of_zero_le (Rat.num_nonneg.mpr h)
  have hRatio : (num : ℚ) / r.den = r := by
    conv_rhs => rw [← Rat.num_div_den r, hNum, Int.cast_natCast]
  exact ⟨_, hRatio ▸ isNearestCode_nearestCode num r.den_pos⟩

theorem units_infinityCode : (unitsOfCode infinityCode : ℚ) = 2 ^ 1024 * unitsPerOne := by
  have hUnits : unitsOfCode infinityCode = binade <<< 2046 :=
    @unitsOfCode_mul_add 2046 binade (by decide) (Or.inr le_rfl)
  have hBinade : (binade : ℚ) = 2 ^ 52 := by norm_num [binade]
  rw [hUnits, unitsPerOne, Nat.one_shiftLeft, Nat.shiftLeft_eq]
  simp only [Nat.cast_mul, Nat.cast_pow, Nat.cast_ofNat]
  rw [hBinade, ← pow_add, ← pow_add, unitExponent]

theorem units_lastCode :
    (unitsOfCode (infinityCode - 1) : ℚ) = (2 ^ 1024 - 2 ^ 971) * unitsPerOne := by
  have hUnits : unitsOfCode (infinityCode - 1) = (2 * binade - 1) <<< 2045 :=
    @unitsOfCode_mul_add 2045 (2 * binade - 1) (by decide) (Or.inr (by decide))
  have hOnes : ((2 * binade - 1 : ℕ) : ℚ) = 2 ^ 53 - 1 := by norm_num [binade]
  rw [hUnits, unitsPerOne, Nat.one_shiftLeft, Nat.shiftLeft_eq]
  simp only [Nat.cast_mul, Nat.cast_pow, Nat.cast_ofNat]
  rw [hOnes, sub_mul, sub_mul, one_mul, ← pow_add, ← pow_add, ← pow_add, unitExponent]

/-- The last finite code and the first infinite one are equally near to the limit, and the latter is
even. -/
theorem lt_infinityCode_iff (h : IsNearestCode r code) :
    code < infinityCode ↔ r < (2 ^ 1024 - 2 ^ 970) * unitsPerOne := by
  have hMiddle : (unitsOfCode (infinityCode - 1) : ℚ) + unitsOfCode infinityCode =
      2 * ((2 ^ 1024 - 2 ^ 970) * unitsPerOne) := by
    rw [units_lastCode, units_infinityCode, pow_succ (2 : ℚ) 970]
    generalize (2 : ℚ) ^ 1024 = top
    generalize (2 : ℚ) ^ 970 = half
    ring
  have hStep : (unitsOfCode (infinityCode - 1) : ℚ) < unitsOfCode infinityCode :=
    IsNearestCode.units_le_of_lt (by decide)
  generalize (2 ^ 1024 - 2 ^ 970) * (unitsPerOne : ℚ) = limit at hMiddle ⊢
  constructor
  · intro hFinite
    by_contra hNot
    rw [not_lt] at hNot
    have hBelow : r < unitsOfCode infinityCode := by
      by_contra hAbove
      exact absurd (h.le_of_units_le (not_lt.mp hAbove)) (Nat.not_le.mpr hFinite)
    obtain rfl : code = infinityCode - 1 :=
      Nat.le_antisymm (Nat.le_sub_one_of_lt hFinite) (h.le_of_units_le (by linarith))
    have hNear := h.nearest infinityCode
    rw [abs_of_neg (by linarith), abs_of_pos (by linarith)] at hNear
    have hOdd := h.even_of_tie infinityCode (by decide) (by
      rw [abs_of_neg (by linarith), abs_of_pos (by linarith)]
      linarith)
    exact absurd hOdd (by decide)
  · intro hBelow
    by_contra hNot
    rw [not_lt] at hNot
    have hAbove : (unitsOfCode (infinityCode - 1) : ℚ) < r := by
      by_contra hLe
      exact absurd (hNot.trans (h.le_of_le_units (not_lt.mp hLe))) (by decide)
    obtain rfl : code = infinityCode :=
      Nat.le_antisymm (h.le_of_le_units (by linarith)) hNot
    have hNear := h.nearest (infinityCode - 1)
    rw [abs_of_pos (by linarith), abs_of_neg (by linarith)] at hNear
    linarith

end Overflow

section Values

variable {x : Binary64} {v : ℚ} {negative : Bool} {num den : ℕ}

def value (x : Binary64) : ℚ := (if x.negative then -1 else 1) * (x.units / unitsPerOne)

/-- The double is the value rounded, with the sign of the value; a zero may have either sign. -/
structure IsNearest (x : Binary64) (v : ℚ) : Prop where
  sign : if x.negative then v ≤ 0 else 0 ≤ v
  code : IsNearestCode (|v| * unitsPerOne) x.code

theorem unitsPerOne_pos : (0 : ℚ) < unitsPerOne := by
  exact_mod_cast (by decide : 0 < unitsPerOne)

theorem abs_value (x : Binary64) : |x.value| = x.units / unitsPerOne :=
  abs_sign_mul _ (div_nonneg (Nat.cast_nonneg _) unitsPerOne_pos.le)

theorem IsNearest.abs_sub_eq (h : x.IsNearest v) : |x.value - v| = |(|x.value| - |v|)| := by
  have hSign := h.sign
  rw [abs_value, value]
  split at hSign
  · rename_i hNegative
    rw [if_pos hNegative, abs_of_nonpos hSign, abs_sub_comm, neg_one_mul, sub_neg_eq_add,
      sub_neg_eq_add, add_comm]
  · rename_i hPositive
    rw [if_neg hPositive, abs_of_nonneg hSign, one_mul]

/-- No double is nearer to the value. -/
theorem IsNearest.abs_sub_le (h : x.IsNearest v) (y : Binary64) : |x.value - v| ≤ |y.value - v| := by
  have hScale : ∀ z : Binary64, |(|z.value| - |v|)| * unitsPerOne =
      |(z.units : ℚ) - |v| * unitsPerOne| := by
    intro z
    have hPos := unitsPerOne_pos
    rw [← abs_of_pos hPos, ← abs_mul, abs_of_pos hPos, abs_value, sub_mul,
      div_mul_cancel₀ _ hPos.ne']
  have hNear := h.code.nearest y.code
  rw [← units, ← units, ← hScale, ← hScale] at hNear
  calc
    |x.value - v| = |(|x.value| - |v|)| := h.abs_sub_eq
    _ ≤ |(|y.value| - |v|)| := le_of_mul_le_mul_right hNear unitsPerOne_pos
    _ ≤ |y.value - v| := abs_abs_sub_abs_le _ _

/-- Rounding loses nothing exactly where there is nothing to lose. -/
theorem IsNearest.value_eq_iff (h : x.IsNearest v) : x.value = v ↔ ∃ y : Binary64, y.value = v := by
  constructor
  · intro hEq
    exact ⟨x, hEq⟩
  · rintro ⟨y, hy⟩
    have hLe := h.abs_sub_le y
    rw [hy, sub_self, abs_zero] at hLe
    exact sub_eq_zero.mp (abs_nonpos_iff.mp hLe)

theorem ofRatio?_eq_some_iff (hDen : 0 < den) : ofRatio? negative num den = some x ↔
    x.negative = negative ∧ IsNearestCode (num / den * unitsPerOne) x.code := by
  have hNearest : IsNearestCode (num / den * unitsPerOne) (nearestCode (num * unitsPerOne) den) := by
    have h := isNearestCode_nearestCode (num * unitsPerOne) hDen
    push_cast at h
    rwa [mul_div_right_comm] at h
  rw [ofRatio?]
  constructor
  · intro h
    split at h
    · cases h
      exact ⟨rfl, hNearest⟩
    · cases h
  · rintro ⟨hSign, hCode⟩
    have hEq := hNearest.unique hCode
    have hFinite : nearestCode (num * unitsPerOne) den < infinityCode := hEq ▸ x.code_lt
    rw [dif_pos hFinite, Option.some.injEq]
    exact eq_of_code_eq hSign.symm hEq

theorem isNearest_ofInt (n : Int) (h : n.natAbs < wordLimit) : (ofInt n h).IsNearest n := by
  constructor
  · rw [ofInt]
    split
    · rename_i hSign
      exact_mod_cast (of_decide_eq_true hSign).le
    · rename_i hSign
      rw [decide_eq_true_eq, not_lt] at hSign
      exact_mod_cast hSign
  · have hCode := isNearestCode_nearestCode (n.natAbs * unitsPerOne) Nat.one_pos
    rwa [Nat.cast_one, div_one, Nat.cast_mul, Nat.cast_natAbs, Int.cast_abs] at hCode

end Values

end Binary64

end Conform
