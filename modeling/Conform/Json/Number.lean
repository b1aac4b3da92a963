import Conform.Binary64.Round

/-! # Numbers in data

A number is an integer of at most 64 bits, signed or not, or a finite double. The two are told apart
even where their values agree: only `toBinary64` forgets which it was.
-/

set_option autoImplicit false

namespace Conform

/-- At least minus two to the power 63, and below two to the power 64. -/
abbrev IntRange (value : Int) : Prop :=
  -0x8000000000000000 ≤ value ∧ value < 0x10000000000000000

inductive Number where
  | int (value : Int) (inRange : IntRange value)
  | float (value : Binary64)
deriving DecidableEq, Repr

theorem IntRange.natAbs_lt {value : Int} (h : IntRange value) : value.natAbs < wordLimit := by
  unfold wordLimit
  omega

namespace Number

def ofInt? (value : Int) : Option Number :=
  if h : IntRange value then some (.int value h) else none

def ofBool (b : Bool) : Number := if b then .int 1 (by decide) else .int 0 (by decide)

def toBinary64 : Number → Binary64
  | .int value h => .ofInt value h.natAbs_lt
  | .float value => value

/-- Two to the power 53: every whole number up to it is a double. -/
def safeLimit : Nat := 0x20000000000000

theorem intRange_truncate {x : Binary64} (h : x.whole < safeLimit) : IntRange x.truncate := by
  unfold safeLimit at h
  unfold Binary64.truncate
  split <;> omega

/-- An integer if the double is whole and below the safe limit, else the double itself. -/
def ofBinary64 (x : Binary64) : Number :=
  if h : x.isIntegral ∧ x.whole < safeLimit then .int x.truncate (intRange_truncate h.2)
  else .float x

def ofBits? (bits : UInt64) : Option Number := (Binary64.ofBits? bits).map ofBinary64

/-- Numeric equality within each of the two kinds. An integer never equals a double. -/
def same : Number → Number → Bool
  | .int x _, .int y _ => x == y
  | .float x, .float y => x.same y
  | _, _ => false

end Number

end Conform
