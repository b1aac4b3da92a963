import Conform.Text.Digits

/-! # The inside of a JSON string

A string is read up to its closing quotation mark. Escapes of four digits give sixteen bits each.
A character that needs more is given by two of them, a leading and a trailing half; a half that
stands alone makes the string invalid.
-/

set_option autoImplicit false

namespace Conform.Json

/-- A character, or the sixteen bits that an escape of four digits gives. -/
inductive Piece where
  | char (c : Char)
  | unit (bits : Nat)

namespace Piece

def ofLetter? (c : Char) : Option Piece :=
  if c = '"' ∨ c = '\\' ∨ c = '/' then some (.char c)
  else if c = 'b' then some (.char '\x08')
  else if c = 'f' then some (.char '\x0c')
  else if c = 'n' then some (.char '\n')
  else if c = 'r' then some (.char '\r')
  else if c = 't' then some (.char '\t')
  else none

def isLeading (bits : Nat) : Bool := 0xd800 ≤ bits && bits < 0xdc00

def isTrailing (bits : Nat) : Bool := 0xdc00 ≤ bits && bits < 0xe000

/-- Joins the halves and refuses a half that stands alone. -/
def toText? : List Piece → Option (List Char)
  | [] => some []
  | .char c :: rest => (toText? rest).map (c :: ·)
  | .unit high :: .unit low :: rest =>
    if isLeading high && isTrailing low then
      (toText? rest).map (Char.ofNat (0x10000 + (high - 0xd800) * 0x400 + (low - 0xdc00)) :: ·)
    else if isLeading high || isTrailing high then none
    else (toText? (.unit low :: rest)).map (Char.ofNat high :: ·)
  | .unit bits :: rest =>
    if isLeading bits || isTrailing bits then none
    else (toText? rest).map (Char.ofNat bits :: ·)

/-- The pieces up to the closing quotation mark, and the text after it. -/
def takeString? : List Char → Option (List Piece × List Char)
  | '"' :: rest => some ([], rest)
  | '\\' :: 'u' :: a :: b :: c :: d :: rest => do
    let digits ← Text.digits? 16 [a, b, c, d]
    let (pieces, rest) ← takeString? rest
    return (.unit (Text.positional 16 digits) :: pieces, rest)
  | '\\' :: letter :: rest => do
    let piece ← ofLetter? letter
    let (pieces, rest) ← takeString? rest
    return (piece :: pieces, rest)
  | c :: rest =>
    if c < ' ' ∨ c = '\\' then none
    else do
      let (pieces, rest) ← takeString? rest
      return (.char c :: pieces, rest)
  | [] => none

theorem length_lt_of_takeString? {text rest : List Char} {pieces : List Piece}
    (h : takeString? text = some (pieces, rest)) : rest.length < text.length := by
  fun_induction takeString? text generalizing pieces rest <;>
    simp [Option.bind_eq_some_iff] at h <;> grind

end Piece

end Conform.Json
