import Conform.Binary64.Round
import Conform.Text.Digits

/-! # Decimal numerals

A sign, digits with at most one point among them, and an exponent of ten. Only the point and at
least one digit tell the numeral from other text; the words for infinity and NaN are no numerals.
-/

set_option autoImplicit false

namespace Conform.Numeral

/-- A significand times a power of ten, with a sign, which zero has too. -/
structure Decimal where
  negative : Bool
  significand : Nat
  exponent : Int
deriving DecidableEq, Repr

namespace Decimal

def takeSign : List Char → Bool × List Char
  | '-' :: rest => (true, rest)
  | '+' :: rest => (false, rest)
  | text => (false, text)

def takeFraction : List Char → List Nat × List Char
  | '.' :: rest => Text.takeDigits 10 rest
  | text => ([], text)

def signed (negative : Bool) (magnitude : Nat) : Int :=
  if negative then -(magnitude : Int) else magnitude

/-- The exponent at the end of a numeral, zero if there is none. -/
def exponent? : List Char → Option Int
  | [] => some 0
  | mark :: rest =>
    if mark = 'e' ∨ mark = 'E' then
      let (negative, rest) := takeSign rest
      (Text.digits? 10 rest).map fun digits => signed negative (Text.positional 10 digits)
    else none

def read? (text : List Char) : Option Decimal :=
  let (negative, text) := takeSign text
  let (whole, text) := Text.takeDigits 10 text
  let (fraction, text) := takeFraction text
  if whole.isEmpty && fraction.isEmpty then none
  else
    (exponent? text).map fun exponent =>
      { negative
        significand := Text.positional 10 (whole ++ fraction)
        exponent := exponent - fraction.length }

/-- The nearest double. The exponent is compared before the power of ten is formed: beyond 308 a
significand of one already overflows, and far below zero everything rounds to zero. -/
def toBinary64? (x : Decimal) : Option Binary64 :=
  if x.significand = 0 then some (.zero x.negative)
  else if 0 ≤ x.exponent then
    if 308 < x.exponent then none
    else Binary64.ofRatio? x.negative (x.significand * Nat.pow 10 x.exponent.toNat) 1
  else
    let places := (-x.exponent).toNat
    if x.significand.log2 + Binary64.unitExponent + 2 < 3 * places then some (.zero x.negative)
    else Binary64.ofRatio? x.negative x.significand (Nat.pow 10 places)

end Decimal

end Conform.Numeral
