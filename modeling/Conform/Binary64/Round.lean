import Conform.Binary64.Basic

/-! # Rounding to the nearest double

An exact quotient of naturals is rounded once, a tie going to the even code. The shift is chosen so
that the rounded significand has 53 bits; a carry out of it lands on the next code by itself. An
integer of at most 64 bits always has a nearest double.
-/

set_option autoImplicit false

namespace Conform

/-- The natural number nearest to `num / den`, of two the even one. -/
def roundQuotient (num den : Nat) : Nat :=
  if 2 * (num % den) < den ∨ (2 * (num % den) = den ∧ num / den % 2 = 0) then num / den
  else num / den + 1

theorem roundQuotient_le (num den : Nat) : roundQuotient num den ≤ num / den + 1 := by
  unfold roundQuotient
  split <;> omega

/-- Two to the power 64, the bound of unsigned integers. -/
def wordLimit : Nat := 0x10000000000000000

namespace Binary64

/-- The code nearest to `num / den` units. It may lie beyond the finite codes. -/
def nearestCode (num den : Nat) : Nat :=
  let shift := (num / den).log2 - 52
  shift * binade + roundQuotient num (den <<< shift)

/-- The double nearest to `num / den` with the given sign, unless the magnitude is too large. -/
def ofRatio? (negative : Bool) (num den : Nat) : Option Binary64 :=
  let code := nearestCode (num * unitsPerOne) den
  if h : code < infinityCode then some ⟨negative, code, h⟩ else none

theorem nearestCode_le {num den k : Nat} (h : num / den < 1 <<< k) :
    nearestCode num den ≤ (k - 53) * binade + 2 * binade := by
  have hRound : ∀ shift, roundQuotient num (den <<< shift) ≤ num / den / 2 ^ shift + 1 := by
    intro shift
    rw [Nat.div_div_eq_div_mul, Nat.shiftLeft_eq]
    exact roundQuotient_le _ _
  have hLog : (num / den).log2 - 52 ≤ k - 53 := by
    by_cases hZero : num / den = 0
    · simp [hZero]
    · rw [Nat.one_shiftLeft] at h
      have := (Nat.log2_lt hZero).mpr h
      omega
  have hBelow : num / den < 2 ^ (53 + ((num / den).log2 - 52)) :=
    Nat.lt_of_lt_of_le Nat.lt_log2_self (Nat.pow_le_pow_right (by decide) (by omega))
  unfold nearestCode
  dsimp only
  generalize (num / den).log2 - 52 = shift at hLog hBelow
  have hQuotient : num / den / 2 ^ shift < 2 * binade := by
    rw [Nat.div_lt_iff_lt_mul (Nat.two_pow_pos _), show 2 * binade = 2 ^ 53 from rfl, ← Nat.pow_add]
    exact hBelow
  exact Nat.add_le_add (Nat.mul_le_mul_right _ hLog) (Nat.le_trans (hRound shift) hQuotient)

private theorem mul_shiftLeft_lt {n a b : Nat} (h : n < 1 <<< a) : n * 1 <<< b < 1 <<< (a + b) := by
  rw [Nat.shiftLeft_add]
  simpa [Nat.shiftLeft_eq] using Nat.mul_lt_mul_of_pos_right h (Nat.two_pow_pos b)

theorem nearestCode_lt_of_lt_wordLimit {n : Nat} (h : n < wordLimit) :
    nearestCode (n * unitsPerOne) 1 < infinityCode := by
  have hProduct : n * unitsPerOne / 1 < 1 <<< (64 + unitExponent) :=
    Nat.lt_of_le_of_lt (Nat.div_le_self _ _) (mul_shiftLeft_lt h)
  exact Nat.lt_of_le_of_lt (nearestCode_le hProduct) (by decide)

/-- The double nearest to an integer of at most 64 bits. -/
def ofInt (n : Int) (h : n.natAbs < wordLimit) : Binary64 where
  negative := decide (n < 0)
  code := nearestCode (n.natAbs * unitsPerOne) 1
  code_lt := nearestCode_lt_of_lt_wordLimit h

/-- The product of two magnitudes, rounded. -/
def times? (x y : Binary64) : Option Binary64 :=
  ofRatio? false (x.units * y.units) (unitsPerOne * unitsPerOne)

/-- The quotient of two magnitudes, rounded. -/
def over? (x y : Binary64) : Option Binary64 :=
  ofRatio? false x.units y.units

end Binary64

end Conform
