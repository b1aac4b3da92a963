/-! # Digits and positional values

A digit of a base is an ASCII digit or letter whose value lies below the base; letters count in
either case.
-/

set_option autoImplicit false

namespace Conform.Text

/-- The value of an ASCII digit or letter, whatever the base. -/
def alphanumericValue? (c : Char) : Option Nat :=
  if '0' ≤ c ∧ c ≤ '9' then some (c.toNat - '0'.toNat)
  else if 'a' ≤ c ∧ c ≤ 'z' then some (c.toNat - 'a'.toNat + 10)
  else if 'A' ≤ c ∧ c ≤ 'Z' then some (c.toNat - 'A'.toNat + 10)
  else none

def digitValue? (base : Nat) (c : Char) : Option Nat :=
  (alphanumericValue? c).filter (· < base)

/-- The number written by digits, the most significant one first. -/
def positional (base : Nat) (digits : List Nat) : Nat :=
  digits.foldl (fun value digit => value * base + digit) 0

/-- The values of the digits at the start of a text, and the text after them. -/
def takeDigits (base : Nat) : List Char → List Nat × List Char
  | [] => ([], [])
  | c :: rest =>
    match digitValue? base c with
    | some digit =>
      let (digits, after) := takeDigits base rest
      (digit :: digits, after)
    | none => ([], c :: rest)

/-- The values of the digits of a text that holds nothing else and is not empty. -/
def digits? (base : Nat) (text : List Char) : Option (List Nat) :=
  if text.isEmpty then none else text.mapM (digitValue? base)

end Conform.Text
