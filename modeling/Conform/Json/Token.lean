import Conform.Json.Basic
import Conform.Json.Escaped
import Conform.Json.NumberText

/-! # Tokens of JSON text

Scalars, brackets, commas and colons, between which only the space, the tab, the line feed and the
carriage return may stand. A word or a number is the longest run of characters that can be in one.
-/

set_option autoImplicit false

namespace Conform.Json

inductive Token where
  | scalar (value : Json)
  | openArray
  | closeArray
  | openObject
  | closeObject
  | comma
  | colon

namespace Token

def isSpace (c : Char) : Bool := c == ' ' || c == '\t' || c == '\n' || c == '\r'

def isNumeralChar (c : Char) : Bool :=
  ('0' ≤ c && c ≤ '9') || c == '-' || c == '+' || c == '.' || c == 'e' || c == 'E'

def isLetter (c : Char) : Bool := 'a' ≤ c && c ≤ 'z'

def mark? (c : Char) : Option Token :=
  if c = '[' then some .openArray
  else if c = ']' then some .closeArray
  else if c = '\x7b' then some .openObject
  else if c = '\x7d' then some .closeObject
  else if c = ',' then some .comma
  else if c = ':' then some .colon
  else none

def word? (letters : List Char) : Option Json :=
  if letters = "null".toList then some .null
  else if letters = "true".toList then some (.bool true)
  else if letters = "false".toList then some (.bool false)
  else none

def scan? : (text : List Char) → Option (List Token)
  | [] => some []
  | c :: rest =>
    if isSpace c then scan? rest
    else if c = '"' then
      match _hString : Piece.takeString? rest with
      | some (pieces, rest') => do
        let chars ← Piece.toText? pieces
        let tokens ← scan? rest'
        return .scalar (.str (String.ofList chars)) :: tokens
      | none => none
    else if isLetter c then do
      let value ← word? (c :: rest.takeWhile isLetter)
      let tokens ← scan? (rest.dropWhile isLetter)
      return .scalar value :: tokens
    else if isNumeralChar c then do
      let number ← NumberText.read? (c :: rest.takeWhile isNumeralChar)
      let number ← number.toNumber?
      let tokens ← scan? (rest.dropWhile isNumeralChar)
      return .scalar (.num number) :: tokens
    else do
      let mark ← mark? c
      let tokens ← scan? rest
      return mark :: tokens
termination_by text => text.length
decreasing_by
  all_goals simp only [List.length_cons]
  · omega
  · have := Piece.length_lt_of_takeString? _hString
    omega
  · have := (List.dropWhile_sublist (l := rest) isLetter).length_le
    omega
  · have := (List.dropWhile_sublist (l := rest) isNumeralChar).length_le
    omega
  · omega

end Token

end Conform.Json
