import Conform.Text.Extender
import Conform.Text.Ignorable
import Conform.Text.Unprintable

/-! # Quoted text in messages

A message shows a text between double quotes. What has no printed form or no glyph, or would join
the character before it, is shown by the number of its code point.
-/

set_option autoImplicit false

namespace Conform.Text

/-- A text between double quotes, each character written as `escape` says. -/
def enclose (escape : Char → List Char) (text : String) : String :=
  String.ofList ('"' :: text.toList.flatMap escape ++ ['"'])

/-- Whether a reader can tell the character from the text around it. -/
def isVisible (c : Char) : Bool := !(isUnprintable c || isExtender c || isIgnorable c)

def escapeInMessage (c : Char) : List Char :=
  if c = '"' then ['\\', '"']
  else if c = '\\' then ['\\', '\\']
  else if c = '\n' then ['\\', 'n']
  else if c = '\r' then ['\\', 'r']
  else if c = '\t' then ['\\', 't']
  else if c = '\x00' then ['\\', '0']
  else if isVisible c then [c]
  else ['\\', 'u', '\x7b'] ++ Nat.toDigits 16 c.toNat ++ ['\x7d']

def quoted (text : String) : String := enclose escapeInMessage text

end Conform.Text
