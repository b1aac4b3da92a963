import Conform.Proofs.Nearest
import Conform.Proofs.NumeralText
import Mathlib.Algebra.Order.Field.Power

/-! # The values of numerals

A numeral denotes one exact value, and reading it gives the double nearest to this value. The limits that
the reading of decimals puts on the exponent change nothing: beyond them the nearest code is infinite or
zero. A number made from a double keeps its value, and the integers below the safe limit, though not those
from there on, come back from their nearest doubles.
-/

set_option autoImplicit false

namespace Conform

namespace Numeral

namespace Decimal

def value (x : Decimal) : ℚ := (if x.negative then -1 else 1) * (x.significand * 10 ^ x.exponent)

variable {x : Decimal} {y : Binary64}

theorem magnitude_nonneg (x : Decimal) : (0 : ℚ) ≤ x.significand * 10 ^ x.exponent := by
  positivity

theorem abs_value (x : Decimal) : |x.value| = x.significand * 10 ^ x.exponent :=
  abs_sign_mul _ x.magnitude_nonneg

theorem abs_value_of_nonneg (h : 0 ≤ x.exponent) :
    |x.value| = ((x.significand * Nat.pow 10 x.exponent.toNat : ℕ) : ℚ) / (1 : ℕ) := by
  obtain ⟨power, hPower⟩ := Int.eq_ofNat_of_zero_le h
  rw [abs_value, hPower, Int.toNat_natCast, zpow_natCast, Nat.pow_eq]
  push_cast
  rw [div_one]

theorem abs_value_of_neg (h : ¬ 0 ≤ x.exponent) :
    |x.value| = (x.significand : ℚ) / (Nat.pow 10 (-x.exponent).toNat : ℕ) := by
  obtain ⟨places, hPlaces⟩ := Int.eq_ofNat_of_zero_le (show 0 ≤ -x.exponent by omega)
  have hExponent : x.exponent = -(places : ℤ) := by omega
  rw [abs_value, hPlaces, Int.toNat_natCast, hExponent, zpow_neg, zpow_natCast, Nat.pow_eq]
  push_cast
  rfl

theorem some_zero_eq_iff {negative : Bool} {r : ℚ} (hNonneg : 0 ≤ r) (hHalf : r < 1 / 2) :
    some (Binary64.zero negative) = some y ↔
      y.negative = negative ∧ Binary64.IsNearestCode r y.code := by
  have hZero := Binary64.isNearestCode_zero hNonneg hHalf
  rw [Option.some.injEq]
  constructor
  · rintro rfl
    exact ⟨rfl, hZero⟩
  · rintro ⟨rfl, hCode⟩
    exact Binary64.eq_of_code_eq rfl (hZero.unique hCode)

/-- A significand of one is out of range already. -/
theorem infinity_le_of_large (hSignificand : x.significand ≠ 0) (hLarge : 308 < x.exponent) :
    (Binary64.unitsOfCode Binary64.infinityCode : ℚ) ≤ |x.value| * Binary64.unitsPerOne := by
  obtain ⟨power, hLe, hBound⟩ : ∃ power ≤ x.exponent.toNat,
      Binary64.unitsOfCode Binary64.infinityCode ≤ Nat.pow 10 power * Binary64.unitsPerOne :=
    ⟨309, by omega, by decide +kernel⟩
  have hPower : Nat.pow 10 power ≤ x.significand * Nat.pow 10 x.exponent.toNat :=
    Nat.le_trans (Nat.pow_le_pow_right (by decide) hLe)
      (Nat.le_mul_of_pos_left _ (Nat.pos_of_ne_zero hSignificand))
  rw [abs_value_of_nonneg (by omega), Nat.cast_one, div_one]
  exact_mod_cast hBound.trans (Nat.mul_le_mul_right _ hPower)

/-- Three places of ten leave less than three places of two would. -/
theorem lt_half_of_small (hSmall : x.significand.log2 + Binary64.unitExponent + 2 <
    3 * (-x.exponent).toNat) : |x.value| * Binary64.unitsPerOne < 1 / 2 := by
  have hUnits : 2 * (x.significand * Binary64.unitsPerOne) < Nat.pow 10 (-x.exponent).toNat := by
    calc
      2 * (x.significand * Binary64.unitsPerOne)
          < 2 * (2 ^ (x.significand.log2 + 1) * Binary64.unitsPerOne) :=
        Nat.mul_lt_mul_of_pos_left
          (Nat.mul_lt_mul_of_pos_right Nat.lt_log2_self (by decide)) (by decide)
      _ = 2 ^ (x.significand.log2 + Binary64.unitExponent + 2) := by
        rw [Binary64.unitsPerOne, Nat.one_shiftLeft, ← Nat.pow_add, ← Nat.pow_succ']
        congr 1
      _ ≤ 2 ^ (3 * (-x.exponent).toNat) := Nat.pow_le_pow_right (by decide) hSmall.le
      _ = 8 ^ (-x.exponent).toNat := by rw [Nat.pow_mul]
      _ ≤ Nat.pow 10 (-x.exponent).toNat := Nat.pow_le_pow_left (by decide) _
  have hPos : (0 : ℚ) < (Nat.pow 10 (-x.exponent).toNat : ℕ) := by
    exact_mod_cast Nat.pow_pos (by decide)
  have hCast : 2 * ((x.significand : ℚ) * Binary64.unitsPerOne) <
      (Nat.pow 10 (-x.exponent).toNat : ℕ) := by exact_mod_cast hUnits
  rw [abs_value_of_neg (by omega), div_mul_eq_mul_div, div_lt_iff₀ hPos]
  linarith

theorem toBinary64?_eq_some_iff : x.toBinary64? = some y ↔ y.negative = x.negative ∧
    Binary64.IsNearestCode (|x.value| * Binary64.unitsPerOne) y.code := by
  rw [toBinary64?]
  split
  · rename_i hZero
    rw [abs_value, hZero, Nat.cast_zero, zero_mul, zero_mul]
    exact some_zero_eq_iff le_rfl (by norm_num)
  · rename_i hSignificand
    split
    · rename_i hNonneg
      split
      · rename_i hLarge
        refine ⟨nofun, fun h => absurd y.code_lt (Nat.not_lt.mpr ?_)⟩
        exact h.2.le_of_units_le (infinity_le_of_large hSignificand hLarge)
      · rw [Binary64.ofRatio?_eq_some_iff Nat.one_pos, abs_value_of_nonneg hNonneg]
    · rename_i hNeg
      dsimp only
      split
      · rename_i hSmall
        exact some_zero_eq_iff (mul_nonneg (abs_nonneg _) Binary64.unitsPerOne_pos.le)
          (lt_half_of_small hSmall)
      · have hDen : 0 < Nat.pow 10 (-x.exponent).toNat := Nat.pow_pos (by decide)
        rw [Binary64.ofRatio?_eq_some_iff hDen, abs_value_of_neg hNeg]

theorem isNearest_of_toBinary64? (h : x.toBinary64? = some y) : y.IsNearest x.value := by
  obtain ⟨hSign, hCode⟩ := toBinary64?_eq_some_iff.mp h
  refine ⟨?_, hCode⟩
  rw [hSign, value]
  split
  · rw [neg_one_mul]
    exact neg_nonpos.mpr x.magnitude_nonneg
  · rw [one_mul]
    exact x.magnitude_nonneg

end Decimal

/-- The exact value of a text that is a numeral. -/
inductive Denotes : List Char → ℚ → Prop
  | decimal {text : List Char} {x : Decimal} : Decimal.Written text x → Denotes text x.value
  | radix {text : List Char} {n : ℕ} : Radix.Written text n → Denotes text n

theorem Denotes.unique {text : List Char} {v w : ℚ} (hv : Denotes text v) (hw : Denotes text w) :
    v = w := by
  cases hv with
  | decimal hv =>
    rw [← Decimal.read?_eq_some_iff] at hv
    cases hw with
    | decimal hw =>
      rw [← Decimal.read?_eq_some_iff, hv] at hw
      rw [Option.some.inj hw]
    | radix hw =>
      rw [hw.not_decimal] at hv
      cases hv
  | radix hv =>
    cases hw with
    | decimal hw =>
      rw [← Decimal.read?_eq_some_iff, hv.not_decimal] at hw
      cases hw
    | radix hw =>
      rw [← Radix.read?_eq_some_iff] at hv hw
      rw [Option.some.inj (hv.symm.trans hw)]

/-- What is read from a text is the double nearest to the value of the text between its blanks. -/
theorem isNearest_of_read? {text : List Char} {x : Binary64} (h : read? text = some x) :
    ∃ v, Denotes (Text.trim text) v ∧ x.IsNearest v := by
  rw [read?] at h
  cases hRadix : radix? (Text.trim text) with
  | some y =>
    rw [hRadix] at h
    cases h
    obtain ⟨n, hn, hDouble⟩ := Option.bind_eq_some_iff.mp hRadix
    rw [Radix.toBinary64?] at hDouble
    split at hDouble
    · cases hDouble
      exact ⟨n, .radix (Radix.read?_eq_some_iff.mp hn), Binary64.isNearest_ofInt n _⟩
    · cases hDouble
  | none =>
    rw [hRadix] at h
    obtain ⟨y, hy, hDouble⟩ := Option.bind_eq_some_iff.mp h
    exact ⟨y.value, .decimal (Decimal.read?_eq_some_iff.mp hy),
      Decimal.isNearest_of_toBinary64? hDouble⟩

end Numeral

namespace Number

def value : Number → ℚ
  | .int n _ => n
  | .float x => x.value

variable {x : Binary64} {n : ℤ}

theorem value_truncate (h : x.isIntegral = true) : (x.truncate : ℚ) = x.value := by
  have hUnits : x.units = x.whole * Binary64.unitsPerOne := by
    rw [Binary64.whole, Nat.div_mul_cancel (Nat.dvd_of_mod_eq_zero (beq_iff_eq.mp h))]
  rw [Binary64.value, hUnits, Nat.cast_mul, mul_div_cancel_right₀ _ Binary64.unitsPerOne_pos.ne',
    sign_mul_natCast, Binary64.truncate]

/-- Whether it is held as an integer or as a double, the number has the value of the double. -/
theorem value_ofBinary64 (x : Binary64) : (ofBinary64 x).value = x.value := by
  unfold ofBinary64
  split
  · rename_i h
    exact value_truncate h.1
  · rfl

theorem intRange_of_natAbs_lt (h : n.natAbs < safeLimit) : IntRange n := by
  unfold safeLimit at h
  constructor <;> omega

/-- The double nearest to an integer below the safe limit is that integer. -/
theorem ofBinary64_of_isNearest (h : x.IsNearest n) (hSafe : n.natAbs < safeLimit) :
    x.isIntegral = true ∧ ofBinary64 x = .int n (intRange_of_natAbs_lt hSafe) := by
  have hWord := (intRange_of_natAbs_lt hSafe).natAbs_lt
  have hUnits : x.units = (Binary64.ofInt n hWord).units := by
    rw [Binary64.units, Binary64.units, h.code.unique (Binary64.isNearest_ofInt n hWord).code]
  have hIntegral : x.isIntegral = true := by
    rw [Binary64.isIntegral, hUnits]
    exact Binary64.isIntegral_ofInt hWord
  have hWhole : x.whole = n.natAbs := by
    rw [Binary64.whole, hUnits]
    exact Binary64.whole_ofInt_of_lt hWord hSafe
  have hTruncate : x.truncate = n := by
    have hSign := h.sign
    rw [Binary64.truncate, hWhole]
    split at hSign
    · rename_i hNegative
      have hn : n ≤ 0 := by exact_mod_cast hSign
      rw [if_pos hNegative]
      omega
    · rename_i hPositive
      have hn : 0 ≤ n := by exact_mod_cast hSign
      rw [if_neg hPositive]
      omega
  refine ⟨hIntegral, ?_⟩
  unfold ofBinary64
  rw [dif_pos ⟨hIntegral, hWhole ▸ hSafe⟩]
  simp only [hTruncate]

/-- The double nearest to an integer beyond the safe limit does not come down below the limit. -/
theorem ofBinary64_of_isNearest_large (h : x.IsNearest n) (hLarge : safeLimit ≤ n.natAbs) :
    ofBinary64 x = .float x := by
  have hLimit : Binary64.unitsOfCode 0x4340000000000000 = safeLimit * Binary64.unitsPerOne := by
    decide +kernel
  have hUnits : safeLimit * Binary64.unitsPerOne ≤ n.natAbs * Binary64.unitsPerOne :=
    Nat.mul_le_mul_right _ hLarge
  have hCode : 0x4340000000000000 ≤ x.code := by
    apply h.code.le_of_units_le
    rw [hLimit, ← Int.cast_abs, ← Int.natCast_natAbs]
    exact_mod_cast hUnits
  have hWhole : safeLimit ≤ x.whole := by
    rw [Binary64.whole, Nat.le_div_iff_mul_le (by decide), ← hLimit]
    exact Binary64.strictMono_unitsOfCode.monotone hCode
  unfold ofBinary64
  rw [dif_neg]
  omega

end Number

end Conform
