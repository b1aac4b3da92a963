import Conform.Proofs.NumeralValue
import Conform.Proofs.StandIn

/-! # Doubles by their bits

A double has a sign, an exponent and a significand among its bits, and these fields give its exact value.
The code that the bits hold has the same value, so a number read from bits loses nothing, and two numbers
are equal where the doubles compare as equal.
-/

set_option autoImplicit false

namespace Conform

namespace Binary64

open Float.Model UnpackedFloat

def signFactor : Sign → ℚ
  | .positive => 1
  | .negative => -1

def fieldsValue? : UnpackedFloat → Option ℚ
  | .zero _ => some 0
  | .finite sign significand exponent _ => some (signFactor sign * (significand * 2 ^ exponent))
  | .infinity _ | .notANumber => none

theorem fieldsValue?_zero (sign : Sign) : fieldsValue? (.zero sign) = some 0 := rfl

theorem fieldsValue?_finite (sign : Sign) {significand : ℕ} (exponent : ℤ) (hPos : 0 < significand) :
    fieldsValue? (.finite sign significand exponent hPos) =
      some (signFactor sign * (significand * 2 ^ exponent)) := rfl

/-- The exact value of a double, which infinities and NaN do not have. -/
def exactValue? (f : Float) : Option ℚ := fieldsValue? f.toModel.unpack

section Fields

theorem toNat_unpackExponent (b : BitVec 64) :
    (@unpackExponent .binary64 b).toNat = b.toNat / 2 ^ 52 % 2 ^ 11 := by
  show b.toNat >>> 52 % 2 ^ 11 = _
  rw [Nat.shiftRight_eq_div_pow]

theorem toNat_unpackMantissa (b : BitVec 64) :
    (@unpackMantissa .binary64 b).toNat = b.toNat % 2 ^ 52 := by
  show b.toNat >>> 0 % 2 ^ 52 = _
  rw [Nat.shiftRight_zero]

theorem toNat_unpackSign (b : BitVec 64) : (@unpackSign .binary64 b).toNat = b.toNat / 2 ^ 63 := by
  have hWord : b.toNat < 2 ^ 64 := b.isLt
  show b.toNat >>> 63 % 2 = _
  rw [Nat.shiftRight_eq_div_pow]
  omega

/-- The code of a double is its exponent in front of its mantissa. -/
theorem mod_signBit_eq (b : BitVec 64) : b.toNat % signBit =
    (@unpackExponent .binary64 b).toNat * binade + (@unpackMantissa .binary64 b).toNat := by
  rw [toNat_unpackExponent, toNat_unpackMantissa]
  simp only [signBit, binade]
  omega

/-- All ones in the exponent, which make an infinity or a NaN. -/
theorem unpackExponent_eq_ones_iff (b : BitVec 64) :
    @unpackExponent .binary64 b = -1#11 ↔ infinityCode ≤ b.toNat % signBit := by
  rw [← BitVec.toNat_inj, toNat_unpackExponent]
  simp only [infinityCode, signBit]
  have hOnes : (-1#11).toNat = 2047 := by decide
  rw [hOnes]
  omega

theorem toNat_one_append (m : BitVec 52) : (1#1 ++ m).toNat = binade + m.toNat := by
  rw [BitVec.toNat_append, ← Nat.shiftLeft_add_eq_or_of_lt m.isLt]
  rfl

theorem packComponents_unpack (b : BitVec 64) :
    packComponents .binary64 (Sign.ofBitVec (@unpackSign .binary64 b))
      (@unpackExponent .binary64 b) (@unpackMantissa .binary64 b) = b := by
  have hSign : ∀ bit, (Sign.ofBitVec bit).toBitVec = bit := by decide
  have hExponent : (@unpackExponent .binary64 b).toNat < 2 ^ 11 := BitVec.isLt _
  have hMantissa : (@unpackMantissa .binary64 b).toNat < 2 ^ 52 := BitVec.isLt _
  unfold packComponents
  rw [hSign, ← BitVec.toNat_inj, BitVec.toNat_append, ← Nat.shiftLeft_add_eq_or_of_lt hMantissa,
    BitVec.toNat_append, ← Nat.shiftLeft_add_eq_or_of_lt hExponent]
  rw [toNat_unpackSign, toNat_unpackExponent, toNat_unpackMantissa, Nat.shiftLeft_eq,
    Nat.shiftLeft_eq]
  omega

/-- The fields of a finite number. An exponent of zero makes it a subnormal, and a zero if the mantissa is
zero too. -/
inductive FiniteFields (sign : Sign) : BitVec 11 → BitVec 52 → UnpackedFloat → Prop
  | zero : FiniteFields sign 0#11 0#52 (.zero sign)
  | subnormal {mantissa : BitVec 52} (hPos : 0 < mantissa.toNat) :
      FiniteFields sign 0#11 mantissa (.finite sign mantissa.toNat (-1074) hPos)
  | normal {exponent : BitVec 11} {mantissa : BitVec 52} (hNormal : 0 < exponent.toNat)
      (hFinite : exponent.toNat < 2047) (hPos : 0 < (1#1 ++ mantissa).toNat) :
      FiniteFields sign exponent mantissa
        (.finite sign (1#1 ++ mantissa).toNat (exponent.toNat - 1075) hPos)

theorem finiteFields_unpack {b : BitVec 64} (h : @unpackExponent .binary64 b ≠ -1#11) :
    FiniteFields (Sign.ofBitVec (@unpackSign .binary64 b)) (@unpackExponent .binary64 b)
      (@unpackMantissa .binary64 b) (UnpackedFloat.unpack .binary64 b) := by
  unfold UnpackedFloat.unpack
  dsimp only
  rw [if_neg h]
  by_cases hZero : @unpackExponent .binary64 b = 0#11
  · rw [if_pos hZero, hZero]
    by_cases hMantissa : @unpackMantissa .binary64 b = 0#52
    · rw [dif_pos hMantissa, hMantissa]
      exact .zero
    · have hPos : 0 < (@unpackMantissa .binary64 b).toNat :=
        Nat.pos_of_ne_zero fun hEq => hMantissa (BitVec.toNat_inj.mp hEq)
      rw [dif_neg hMantissa]
      exact .subnormal hPos
  · have hLt : (@unpackExponent .binary64 b).toNat < 2 ^ 11 := BitVec.isLt _
    have hOnes : (@unpackExponent .binary64 b).toNat ≠ 2047 := fun hEq => h (BitVec.toNat_inj.mp hEq)
    have hNormal : (@unpackExponent .binary64 b).toNat ≠ 0 :=
      fun hEq => hZero (BitVec.toNat_inj.mp hEq)
    have hPos : 0 < (1#1 ++ @unpackMantissa .binary64 b).toNat := by
      rw [toNat_one_append]
      exact Nat.add_pos_left (by decide) _
    rw [if_neg hZero]
    exact .normal (by omega) (by omega) hPos

/-- The length of the significand tells a normal number from a subnormal one. -/
theorem FiniteFields.pack {sign : Sign} {exponent : BitVec 11} {mantissa : BitVec 52}
    {number : UnpackedFloat} (h : FiniteFields sign exponent mantissa number) :
    UnpackedFloat.pack .binary64 number = packComponents .binary64 sign exponent mantissa := by
  have hMantissa : mantissa.toNat < 2 ^ 52 := mantissa.isLt
  cases h with
  | zero => rfl
  | subnormal hPos =>
    have hShort : mantissa.toNat.log2 < 52 := (Nat.log2_lt hPos.ne').mpr hMantissa
    have hBits : ¬mantissa.toNat.log2 + 1 = Format.mantissaBits .binary64 := by
      show ¬mantissa.toNat.log2 + 1 = 53
      omega
    unfold UnpackedFloat.pack
    dsimp only
    rw [if_neg (by decide), if_neg hBits, BitVec.ofNat_toNat, BitVec.setWidth_eq]
  | normal _ hFinite hPos =>
    have hLong : (1#1 ++ mantissa).toNat.log2 = 52 := by
      rw [Nat.log2_eq_iff hPos.ne', toNat_one_append, binade]
      omega
    have hBiased : ((exponent.toNat : ℤ) - 1075 + 1023 + 52).toNat = exponent.toNat := by
      omega
    have hLow : BitVec.ofNat 52 (1#1 ++ mantissa).toNat = mantissa := by
      rw [← BitVec.toNat_inj, BitVec.toNat_ofNat, toNat_one_append, binade]
      omega
    unfold UnpackedFloat.pack
    show (if 2 ^ 11 ≤ ((exponent.toNat : ℤ) - 1075 + 1023 + 52).toNat + 1 then _ else
      if (1#1 ++ mantissa).toNat.log2 + 1 = 53 then packComponents .binary64 sign
        (BitVec.ofNat 11 ((exponent.toNat : ℤ) - 1075 + 1023 + 52).toNat)
        (BitVec.ofNat 52 (1#1 ++ mantissa).toNat) else _) = _
    rw [hBiased, if_neg (by omega), if_pos (by rw [hLong]), hLow, BitVec.ofNat_toNat,
      BitVec.setWidth_eq]

/-- The code that the fields hold, split into shift and significand, has the value of the number. -/
theorem FiniteFields.exists_fieldsValue? {sign : Sign} {exponent : BitVec 11}
    {mantissa : BitVec 52} {number : UnpackedFloat}
    (h : FiniteFields sign exponent mantissa number) :
    ∃ shift significand : ℕ,
      exponent.toNat * binade + mantissa.toNat = shift * binade + significand ∧
      significand ≤ 2 * binade ∧ (shift = 0 ∨ binade ≤ significand) ∧
      fieldsValue? number =
        some (signFactor sign * ((significand : ℚ) * 2 ^ ((shift : ℤ) - unitExponent))) := by
  have hMantissa : mantissa.toNat < binade := mantissa.isLt
  cases h with
  | zero =>
    refine ⟨0, 0, rfl, Nat.zero_le _, Or.inl rfl, ?_⟩
    rw [fieldsValue?_zero, Nat.cast_zero, zero_mul, mul_zero]
  | subnormal hPos => exact ⟨0, mantissa.toNat, rfl, by omega, Or.inl rfl, rfl⟩
  | normal hNormal hFinite hPos =>
    obtain ⟨shift, hShift⟩ := Nat.exists_eq_succ_of_ne_zero hNormal.ne'
    refine ⟨shift, binade + mantissa.toNat, ?_, by omega, Or.inr (Nat.le_add_right _ _), ?_⟩
    · rw [hShift, Nat.succ_mul, Nat.add_assoc]
    · rw [fieldsValue?_finite, toNat_one_append, hShift]
      congr 4
      simp only [unitExponent]
      omega

variable (bits : UInt64)

/-- The bits of a NaN may be packed as others, which are those of a NaN too. -/
theorem unpack_ofBits :
    (Float.ofBits bits).toModel.unpack = UnpackedFloat.unpack .binary64 bits.toBitVec := by
  show UnpackedFloat.unpack .binary64
    (UnpackedFloat.pack .binary64 (UnpackedFloat.unpack .binary64 bits.toBitVec)) = _
  by_cases hOnes : @unpackExponent .binary64 bits.toBitVec = -1#11
  · have hFields : UnpackedFloat.unpack .binary64 bits.toBitVec =
        if @unpackMantissa .binary64 bits.toBitVec = 0#52 then
          .infinity (Sign.ofBitVec (@unpackSign .binary64 bits.toBitVec)) else .notANumber :=
      if_pos hOnes
    rw [hFields]
    split
    · cases Sign.ofBitVec (@unpackSign .binary64 bits.toBitVec) <;> rfl
    · rfl
  · rw [(finiteFields_unpack hOnes).pack, packComponents_unpack]

variable {bits : UInt64} {x : Binary64}

theorem toBits_of_ofBits? (h : ofBits? bits = some x) : x.toBits = bits := by
  unfold ofBits? at h
  split at h
  · cases h
    have hWord := bits.toNat_lt
    apply UInt64.toNat_inj.mp
    by_cases hSign : signBit ≤ bits.toNat
    · simp only [toBits, UInt64.toNat_ofNat', hSign, decide_true, if_true]
      simp only [signBit] at *
      omega
    · simp only [toBits, UInt64.toNat_ofNat', hSign, decide_false, Bool.false_eq_true, if_false]
      simp only [signBit] at *
      omega
  · cases h

theorem ofBits?_toBits (x : Binary64) : ofBits? x.toBits = some x := by
  have hCode := x.code_lt
  have hBits : x.toBits.toNat = (if x.negative then signBit else 0) + x.code := by
    rw [toBits, UInt64.toNat_ofNat', Nat.mod_eq_of_lt]
    simp only [signBit, infinityCode] at hCode ⊢
    split <;> omega
  have hSplit : x.toBits.toNat % signBit = x.code ∧
      decide (signBit ≤ x.toBits.toNat) = x.negative := by
    rw [hBits]
    cases x.negative <;> simp [signBit, infinityCode] at hCode ⊢ <;> omega
  rw [ofBits?, dif_pos (hSplit.1 ▸ hCode), Option.some.injEq]
  exact eq_of_code_eq hSplit.2 hSplit.1

theorem signFactor_unpackSign (b : BitVec 64) :
    signFactor (Sign.ofBitVec (@unpackSign .binary64 b)) =
      if decide (signBit ≤ b.toNat) then -1 else 1 := by
  have hWord : b.toNat < 2 ^ 64 := b.isLt
  have hZero : @unpackSign .binary64 b = 0#1 ↔ ¬ signBit ≤ b.toNat := by
    rw [← BitVec.toNat_inj, toNat_unpackSign, BitVec.toNat_ofNat]
    simp only [signBit]
    omega
  unfold Sign.ofBitVec
  by_cases hSign : signBit ≤ b.toNat
  · rw [if_neg (fun h => hZero.mp h hSign), decide_eq_true hSign]
    rfl
  · rw [if_pos (hZero.mpr hSign), decide_eq_false hSign]
    rfl

theorem units_div (shift significand : ℕ) : ((significand <<< shift : ℕ) : ℚ) / unitsPerOne =
    significand * 2 ^ ((shift : ℤ) - unitExponent) := by
  rw [unitsPerOne, Nat.one_shiftLeft, Nat.shiftLeft_eq, zpow_sub₀ two_ne_zero, zpow_natCast,
    zpow_natCast]
  push_cast
  rw [mul_div_assoc]

theorem exactValue?_of_ofBits? (h : ofBits? bits = some x) :
    exactValue? (Float.ofBits bits) = some x.value := by
  unfold ofBits? at h
  split at h
  · rename_i hFinite
    cases h
    have hOnes := unpackExponent_eq_ones_iff bits.toBitVec
    have hSign := signFactor_unpackSign bits.toBitVec
    have hFields := mod_signBit_eq bits.toBitVec
    rw [UInt64.toNat_toBitVec] at hOnes hSign hFields
    obtain ⟨shift, significand, hCode, hLe, hNormal, hExact⟩ :=
      (finiteFields_unpack fun h => Nat.not_le.mpr hFinite (hOnes.mp h)).exists_fieldsValue?
    have hUnits : unitsOfCode (bits.toNat % signBit) = significand <<< shift := by
      rw [hFields, hCode, unitsOfCode_mul_add hLe hNormal]
    rw [exactValue?, unpack_ofBits, hExact, hSign, value, units, hUnits, units_div]
  · cases h

theorem exactValue?_eq_none_iff (f : Float) :
    exactValue? f = none ↔ f.isNaN = true ∨ f.isInf = true := by
  rw [exactValue?, Float.isNaN, Float.isInf, Float.Model.isNaN, Float.Model.isInf]
  cases f.toModel.unpack with
  | zero | finite =>
    refine iff_of_false nofun ?_
    rintro (h | h) <;> cases h
  | infinity => exact iff_of_true rfl (Or.inr rfl)
  | notANumber => exact iff_of_true rfl (Or.inl rfl)

theorem ofBits?_eq_none_iff (bits : UInt64) : ofBits? bits = none ↔
    (Float.ofBits bits).isNaN = true ∨ (Float.ofBits bits).isInf = true := by
  rw [← exactValue?_eq_none_iff]
  cases hBits : ofBits? bits with
  | some x => simp [exactValue?_of_ofBits? hBits]
  | none =>
    refine iff_of_true rfl ?_
    have hOnes : @unpackExponent .binary64 bits.toBitVec = -1#11 := by
      rw [unpackExponent_eq_ones_iff, UInt64.toNat_toBitVec]
      refine Nat.not_lt.mp fun hFinite => ?_
      rw [ofBits?, dif_pos hFinite] at hBits
      cases hBits
    rw [exactValue?, unpack_ofBits]
    unfold UnpackedFloat.unpack
    rw [if_pos hOnes]
    split <;> rfl

end Fields

section Values

variable {x y : Binary64} {bits other : UInt64}

theorem abs_value_mul (x : Binary64) : |x.value| * unitsPerOne = x.units := by
  rw [abs_value, div_mul_cancel₀ _ unitsPerOne_pos.ne']

theorem value_of_isZero (h : x.isZero = true) : x.value = 0 := by
  have hCode : x.code = 0 := beq_iff_eq.mp h
  have hUnits : x.units = 0 := by
    rw [units, hCode]
    rfl
  rw [value, hUnits, Nat.cast_zero, zero_div, mul_zero]

theorem value_eq_iff_same : x.value = y.value ↔ x.same y = true := by
  rw [same, Bool.or_eq_true, beq_iff_eq, Bool.and_eq_true]
  constructor
  · intro h
    have hUnits : x.units = y.units := by
      have hScaled : (x.units : ℚ) = y.units := by rw [← abs_value_mul, ← abs_value_mul, h]
      exact_mod_cast hScaled
    have hCode : x.code = y.code := strictMono_unitsOfCode.injective hUnits
    by_cases hSign : x.negative = y.negative
    · exact Or.inl (eq_of_code_eq hSign hCode)
    · -- The values of opposite signs meet at zero alone.
      have hOpposite : x.value = -y.value := by
        rw [value, value, hUnits]
        cases hx : x.negative <;> cases hy : y.negative <;> simp [hx, hy] at hSign ⊢
      have hZero : (x.units : ℚ) = 0 := by
        have hValue : x.value = 0 := by linarith
        rw [← abs_value_mul, hValue, abs_zero, zero_mul]
      have hCodeZero : x.code = 0 :=
        strictMono_unitsOfCode.injective (by exact_mod_cast hZero)
      exact Or.inr ⟨beq_iff_eq.mpr hCodeZero, beq_iff_eq.mpr (hCode ▸ hCodeZero)⟩
  · rintro (rfl | ⟨hx, hy⟩)
    · rfl
    · rw [value_of_isZero hx, value_of_isZero hy]

theorem isNearest_self (x : Binary64) : x.IsNearest x.value := by
  constructor
  · have hNonneg : (0 : ℚ) ≤ x.units / unitsPerOne :=
      div_nonneg (Nat.cast_nonneg _) unitsPerOne_pos.le
    rw [value]
    split
    · linarith
    · linarith
  · rw [abs_value_mul]
    constructor
    · intro other
      rw [units, sub_self, abs_zero]
      exact abs_nonneg _
    · intro other hOther hTie
      rw [units, sub_self, abs_zero, eq_comm, abs_eq_zero, sub_eq_zero] at hTie
      exact absurd (strictMono_unitsOfCode.injective (Nat.cast_injective hTie)) hOther

theorem compare_finite_eq_iff {sign signOther : Sign} {significand significandOther : ℕ}
    {exponent exponentOther : ℤ} (hPos : 0 < significand) (hPosOther : 0 < significandOther) :
    UnpackedFloat.compare (.finite sign significand exponent hPos)
        (.finite signOther significandOther exponentOther hPosOther) = some .eq ↔
      sign = signOther ∧ exponent = exponentOther ∧ significand = significandOther := by
  cases sign with
  | positive =>
    cases signOther with
    | positive =>
      show some ((compare exponent exponentOther).then (compare significand significandOther)) =
        some .eq ↔ _
      rw [Option.some.injEq, Ordering.then_eq_eq, compare_eq_iff_eq, compare_eq_iff_eq]
      exact (and_iff_right rfl).symm
    | negative => exact iff_of_false nofun nofun
  | negative =>
    cases signOther with
    | positive => exact iff_of_false nofun nofun
    | negative =>
      show some ((compare exponent exponentOther).then
        (compare significand significandOther)).swap = some .eq ↔ _
      rw [Option.some.injEq, Ordering.swap_eq_eq, Ordering.then_eq_eq, compare_eq_iff_eq,
        compare_eq_iff_eq]
      exact (and_iff_right rfl).symm

theorem fieldsValue?_eq_of_beq {a b : UnpackedFloat} (h : a.beq b = true) :
    fieldsValue? a = fieldsValue? b := by
  have hEq : a.compare b = some .eq := beq_iff_eq.mp h
  cases a with
  | zero =>
    cases b with
    | zero => rfl
    | finite sign | infinity sign => cases sign <;> cases hEq
    | notANumber => cases hEq
  | infinity sign =>
    cases b with
    | infinity => rfl
    | zero | finite | notANumber => cases sign <;> cases hEq
  | notANumber => cases b <;> cases hEq
  | finite sign =>
    cases b with
    | finite =>
      obtain ⟨rfl, rfl, rfl⟩ := (compare_finite_eq_iff _ _).mp hEq
      rfl
    | infinity signOther => cases sign <;> cases signOther <;> cases hEq
    | zero | notANumber => cases sign <;> cases hEq

theorem beq_self_of_fieldsValue? {a : UnpackedFloat} {v : ℚ} (h : fieldsValue? a = some v) :
    a.beq a = true := by
  refine beq_iff_eq.mpr ?_
  cases a with
  | zero => rfl
  | finite => exact (compare_finite_eq_iff _ _).mpr ⟨rfl, rfl, rfl⟩
  | infinity | notANumber => cases h

theorem eq_zero_of_fieldsValue? {fields : UnpackedFloat} (h : fieldsValue? fields = some 0) :
    ∃ sign, fields = .zero sign := by
  cases fields with
  | zero sign => exact ⟨sign, rfl⟩
  | finite sign significand exponent hPos =>
    have hProduct := Option.some.inj h
    have hSign : signFactor sign ≠ 0 := by cases sign <;> norm_num [signFactor]
    have hSignificand : (significand : ℚ) ≠ 0 := by exact_mod_cast hPos.ne'
    exact absurd hProduct (mul_ne_zero hSign (mul_ne_zero hSignificand (zpow_ne_zero _ two_ne_zero)))
  | infinity _ | notANumber => cases h

theorem beq_ofBits_iff (hx : ofBits? bits = some x) (hy : ofBits? other = some y) :
    (Float.ofBits bits == Float.ofBits other) = true ↔ x.value = y.value := by
  have hExact := exactValue?_of_ofBits? hx
  have hExactOther := exactValue?_of_ofBits? hy
  show UnpackedFloat.beq (Float.ofBits bits).toModel.unpack
    (Float.ofBits other).toModel.unpack = true ↔ _
  rw [exactValue?] at hExact hExactOther
  constructor
  · intro h
    rw [fieldsValue?_eq_of_beq h, hExactOther] at hExact
    exact (Option.some.inj hExact).symm
  · intro h
    rcases Bool.or_eq_true_iff.mp (value_eq_iff_same.mp h) with hEq | hZeros
    · have hBits : bits = other := by
        rw [← toBits_of_ofBits? hx, ← toBits_of_ofBits? hy, beq_iff_eq.mp hEq]
      rw [← hBits]
      exact beq_self_of_fieldsValue? hExact
    · obtain ⟨hxZero, hyZero⟩ := Bool.and_eq_true_iff.mp hZeros
      rw [value_of_isZero hxZero] at hExact
      rw [value_of_isZero hyZero] at hExactOther
      obtain ⟨sign, hFields⟩ := eq_zero_of_fieldsValue? hExact
      obtain ⟨signOther, hFieldsOther⟩ := eq_zero_of_fieldsValue? hExactOther
      rw [hFields, hFieldsOther]
      rfl

end Values

end Binary64

namespace Number

variable {x y : Binary64}

theorem ofBinary64_of_value {k : ℤ} (h : x.value = k) (hSafe : k.natAbs < safeLimit) :
    ofBinary64 x = .int k (intRange_of_natAbs_lt hSafe) :=
  (ofBinary64_of_isNearest (h ▸ Binary64.isNearest_self x) hSafe).2

theorem ofBinary64_of_large (h : ∀ k : ℤ, x.value = k → safeLimit ≤ k.natAbs) :
    ofBinary64 x = .float x := by
  by_cases hIntegral : x.isIntegral = true
  · have hNearest := Binary64.isNearest_self x
    rw [← value_truncate hIntegral] at hNearest
    exact ofBinary64_of_isNearest_large hNearest (h _ (value_truncate hIntegral).symm)
  · unfold ofBinary64
    rw [dif_neg fun hBoth => hIntegral hBoth.1]

theorem exists_ofBinary64_eq_int_iff : (∃ k inRange, ofBinary64 x = .int k inRange) ↔
    ∃ k : ℤ, x.value = k ∧ k.natAbs < safeLimit := by
  constructor
  · rintro ⟨_, _, hInt⟩
    by_contra hNone
    push Not at hNone
    rw [ofBinary64_of_large hNone] at hInt
    cases hInt
  · rintro ⟨k, hValue, hSafe⟩
    exact ⟨k, _, ofBinary64_of_value hValue hSafe⟩

theorem eq_of_ofBinary64_eq_float (h : ofBinary64 x = .float y) : x = y := by
  unfold ofBinary64 at h
  split at h
  · cases h
  · exact float.inj h

theorem value_of_same {m n : Number} (h : m.same n = true) : m.value = n.value := by
  cases m with
  | int j _ =>
    cases n with
    | int k _ =>
      have hEq : j = k := beq_iff_eq.mp (show (j == k) = true from h)
      rw [value, value, hEq]
    | float _ => cases h
  | float x =>
    cases n with
    | int _ _ => cases h
    | float y => exact Binary64.value_eq_iff_same.mpr h

/-- Two doubles of one value become one number, also if they are the two zeros. -/
theorem ofBinary64_eq_iff : ofBinary64 x = ofBinary64 y ↔ x.value = y.value := by
  constructor
  · intro h
    rw [← value_ofBinary64, ← value_ofBinary64, h]
  · intro h
    rcases Bool.or_eq_true_iff.mp (Binary64.value_eq_iff_same.mp h) with hEq | hZeros
    · rw [beq_iff_eq.mp hEq]
    · obtain ⟨hx, hy⟩ := Bool.and_eq_true_iff.mp hZeros
      have hZero : ∀ z : Binary64, z.isZero = true → z.value = ((0 : ℤ) : ℚ) := by
        intro z hz
        rw [Binary64.value_of_isZero hz, Int.cast_zero]
      rw [ofBinary64_of_value (hZero x hx) (by decide), ofBinary64_of_value (hZero y hy) (by decide)]

theorem same_ofBinary64_iff : (ofBinary64 x).same (ofBinary64 y) = true ↔ x.value = y.value := by
  constructor
  · intro h
    rw [← value_ofBinary64, ← value_ofBinary64, value_of_same h]
  · intro h
    rw [ofBinary64_eq_iff.mpr h]
    exact same_self _

/-- Reading the bits of a double gives nothing for infinities and NaN, and for any other double its exact
value. The number is an integer where the value is a safe one and otherwise the double itself. The numbers
of two doubles are equal where the doubles are. -/
theorem ofBits_exact (bits : UInt64) :
    (ofBits? bits = none ↔
      (Float.ofBits bits).isNaN = true ∨ (Float.ofBits bits).isInf = true) ∧
    (∀ n, ofBits? bits = some n →
      Binary64.exactValue? (Float.ofBits bits) = some n.value ∧
      ((∃ k inRange, n = .int k inRange) ↔
        ∃ k : ℤ, Binary64.exactValue? (Float.ofBits bits) = some (k : ℚ) ∧ |k| ≤ 2 ^ 53 - 1) ∧
      ∀ x, n = .float x → x.toBits = bits) ∧
    ∀ other m n, ofBits? bits = some m → ofBits? other = some n →
      (m = n ↔ (Float.ofBits bits == Float.ofBits other) = true) ∧
      (m.same n = true ↔ (Float.ofBits bits == Float.ofBits other) = true) := by
  refine ⟨?_, ?_, ?_⟩
  · rw [ofBits?, Option.map_eq_none_iff, Binary64.ofBits?_eq_none_iff]
  · intro n hn
    obtain ⟨x, hx, rfl⟩ := Option.map_eq_some_iff.mp hn
    rw [Binary64.exactValue?_of_ofBits? hx, value_ofBinary64, exists_ofBinary64_eq_int_iff]
    refine ⟨rfl, exists_congr fun k => ?_, ?_⟩
    · rw [Option.some.injEq, Int.abs_eq_natAbs, safeLimit]
      exact and_congr_right fun _ => by omega
    · intro y hy
      rw [← eq_of_ofBinary64_eq_float hy, Binary64.toBits_of_ofBits? hx]
  · intro other m n hm hn
    obtain ⟨x, hx, rfl⟩ := Option.map_eq_some_iff.mp hm
    obtain ⟨y, hy, rfl⟩ := Option.map_eq_some_iff.mp hn
    rw [Binary64.beq_ofBits_iff hx hy]
    exact ⟨ofBinary64_eq_iff, same_ofBinary64_iff⟩

-- The negative zero, which equals the other zero.
theorem ofBits_exact_zero :
    Binary64.exactValue? (Float.ofBits 0x8000000000000000) = some 0 ∧
    ofBits? 0x8000000000000000 = some (.int 0 (by decide)) ∧
    ofBits? 0 = some (.int 0 (by decide)) ∧
    (Float.ofBits 0x8000000000000000 == Float.ofBits 0) = true := by
  have hNegative : ofBits? 0x8000000000000000 = some (.int 0 (by decide)) := by decide +kernel
  have hPositive : ofBits? 0 = some (.int 0 (by decide)) := by decide +kernel
  have hExact := ((ofBits_exact _).2.1 _ hNegative).1
  rw [value, Int.cast_zero] at hExact
  exact ⟨hExact, hNegative, hPositive, ((ofBits_exact _).2.2 0 _ _ hNegative hPositive).1.mp rfl⟩

end Number

end Conform
