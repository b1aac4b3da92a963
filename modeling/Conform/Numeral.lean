import Conform.Numeral.Decimal
import Conform.Numeral.Radix
import Conform.Text.Blank

/-! # Numbers written as text

A text between blanks is read as a radix numeral or else as a decimal numeral, and denotes the
double nearest to its value, if there is one.
-/

set_option autoImplicit false

namespace Conform.Numeral

def radix? (text : List Char) : Option Binary64 := (Radix.read? text).bind Radix.toBinary64?

def decimal? (text : List Char) : Option Binary64 := (Decimal.read? text).bind Decimal.toBinary64?

def read? (text : List Char) : Option Binary64 :=
  let bare := Text.trim text
  radix? bare <|> decimal? bare

end Conform.Numeral
