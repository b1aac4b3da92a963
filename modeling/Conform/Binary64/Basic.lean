/-! # Finite doubles

A finite double is a sign and a code, the number read off its remaining 63 bits. Codes grow with
the magnitude, and the magnitude is a whole number of units of 2^-1074, the least positive double.
Infinities and NaN have no code here: `ofBits?` refuses their bits.
-/

set_option autoImplicit false

namespace Conform

namespace Binary64

/-- Two to the power 52: so many codes share an exponent. -/
def binade : Nat := 0x10000000000000

/-- The first code that stands for no finite magnitude, 2047 binades above zero. -/
def infinityCode : Nat := 0x7ff0000000000000

/-- Two to the power 63. -/
def signBit : Nat := 0x8000000000000000

end Binary64

structure Binary64 where
  negative : Bool
  code : Nat
  code_lt : code < Binary64.infinityCode := by decide
deriving DecidableEq, Repr

namespace Binary64

/-- One holds two to this power units. -/
def unitExponent : Nat := 1074

def unitsPerOne : Nat := 1 <<< unitExponent

/-- The units of the magnitude with this code: in the first binade the code itself, above it a
significand of 53 bits shifted by one less than the exponent. -/
def unitsOfCode (code : Nat) : Nat :=
  if code < binade then code else (binade + code % binade) <<< (code / binade - 1)

def units (x : Binary64) : Nat := unitsOfCode x.code

def zero (negative : Bool) : Binary64 where
  negative
  code := 0

def one : Binary64 where
  negative := false
  code := 0x3ff0000000000000

def ofBits? (bits : UInt64) : Option Binary64 :=
  if h : bits.toNat % signBit < infinityCode then
    some ⟨decide (signBit ≤ bits.toNat), bits.toNat % signBit, h⟩
  else none

def toBits (x : Binary64) : UInt64 :=
  UInt64.ofNat ((if x.negative then signBit else 0) + x.code)

def isZero (x : Binary64) : Bool := x.code == 0

/-- Numeric equality: the two zeros are equal. -/
def same (x y : Binary64) : Bool := x == y || (x.isZero && y.isZero)

def isIntegral (x : Binary64) : Bool := x.units % unitsPerOne == 0

/-- The magnitude without its fraction. -/
def whole (x : Binary64) : Nat := x.units / unitsPerOne

/-- The value without its fraction. -/
def truncate (x : Binary64) : Int := if x.negative then -(x.whole : Int) else x.whole

end Binary64

end Conform
