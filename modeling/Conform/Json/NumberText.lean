import Conform.Json.Number
import Conform.Numeral.Decimal

/-! # Numbers in JSON text

A number without point and exponent is an integer if it fits one, except for minus zero. Any other
number is a double of which the last place may be off by a little: its leading digits are gathered
into a significand of at most 64 bits, and this is rounded before it is scaled by a power of ten.
-/

set_option autoImplicit false

namespace Conform.Json

/-- A number as written: the digits before the point, those after it, and the exponent. -/
structure NumberText where
  negative : Bool
  whole : List Nat
  fraction : Option (List Nat)
  exponent : Option Int

namespace NumberText

def takeFraction? : List Char → Option (Option (List Nat) × List Char)
  | '.' :: rest =>
    let (digits, rest) := Text.takeDigits 10 rest
    if digits.isEmpty then none else some (some digits, rest)
  | text => some (none, text)

/-- No digit stands before the first one if that is zero. -/
def wellBegun : List Nat → Bool
  | [] => false
  | first :: rest => first != 0 || rest.isEmpty

def read? (text : List Char) : Option NumberText := do
  let (negative, text) :=
    match text with
    | '-' :: rest => (true, rest)
    | _ => (false, text)
  let (whole, text) := Text.takeDigits 10 text
  let (fraction, text) ← takeFraction? text
  let exponent ← if text.isEmpty then some none else (Numeral.Decimal.exponent? text).map some
  if wellBegun whole then some { negative, whole, fraction, exponent } else none

/-- Appends digits to a significand as long as it fits 64 bits; the rest is left over. -/
def gather : Nat → List Nat → Nat × List Nat
  | significand, [] => (significand, [])
  | significand, digit :: rest =>
    if significand * 10 + digit < wordLimit then gather (significand * 10 + digit) rest
    else (significand, digit :: rest)

/-- The product of a magnitude and a power of ten, one rounding a step. A step never exceeds the
largest power of ten among the doubles. -/
def scale? (x : Binary64) (exponent : Int) : Option Binary64 :=
  if h : exponent.natAbs ≤ 308 then do
    let power ← Binary64.ofRatio? false (Nat.pow 10 exponent.natAbs) 1
    if 0 ≤ exponent then x.times? power else x.over? power
  else if x.isZero then some x
  else if hSign : 0 ≤ exponent then none
  else do
    let power ← Binary64.ofRatio? false (Nat.pow 10 308) 1
    let x ← x.over? power
    scale? x (exponent + 308)
termination_by exponent.natAbs
decreasing_by omega

def toBinary64? (n : NumberText) : Option Binary64 := do
  let (significand, dropped) := gather 0 n.whole
  let fraction := n.fraction.getD []
  let (significand, cut) := gather significand fraction
  let places : Int := dropped.length - (fraction.length - cut.length)
  let rounded ← Binary64.ofRatio? false significand 1
  let magnitude ← scale? rounded (n.exponent.getD 0 + places)
  return { magnitude with negative := n.negative }

def toInt? (n : NumberText) : Option Number :=
  if n.fraction.isSome || n.exponent.isSome then none
  else
    let magnitude := Text.positional 10 n.whole
    if n.negative && magnitude == 0 then none
    else Number.ofInt? (Numeral.Decimal.signed n.negative magnitude)

def toNumber? (n : NumberText) : Option Number :=
  n.toInt? <|> n.toBinary64?.map .float

end NumberText

end Conform.Json
