import Conform.Text.Quoted

/-! # Strings in JSON text

A quotation mark, a backslash and the characters below the space are escaped, the common ones by a
letter; every other character stands as it is.
-/

set_option autoImplicit false

namespace Conform.Json

def escape (c : Char) : List Char :=
  if c = '"' then ['\\', '"']
  else if c = '\\' then ['\\', '\\']
  else if c = '\x08' then ['\\', 'b']
  else if c = '\x0c' then ['\\', 'f']
  else if c = '\n' then ['\\', 'n']
  else if c = '\r' then ['\\', 'r']
  else if c = '\t' then ['\\', 't']
  else if c < ' ' then
    ['\\', 'u', '0', '0', Nat.digitChar (c.toNat / 16), Nat.digitChar (c.toNat % 16)]
  else [c]

def quoted (text : String) : String := Text.enclose escape text

end Conform.Json
