import Conform.Binary64.Round
import Conform.Text.Digits

/-! # Radix numerals

Unsigned numbers in base sixteen, eight or two behind `0x`, `0o` or `0b`, of at most 64 bits.
-/

set_option autoImplicit false

namespace Conform.Numeral.Radix

def base? (mark : Char) : Option Nat :=
  if mark = 'x' ∨ mark = 'X' then some 16
  else if mark = 'o' ∨ mark = 'O' then some 8
  else if mark = 'b' ∨ mark = 'B' then some 2
  else none

def read? : List Char → Option Nat
  | '0' :: mark :: rest => do
    let base ← base? mark
    let digits ← Text.digits? base rest
    return Text.positional base digits
  | _ => none

def toBinary64? (value : Nat) : Option Binary64 :=
  if h : value < wordLimit then some (.ofInt value h) else none

end Conform.Numeral.Radix
