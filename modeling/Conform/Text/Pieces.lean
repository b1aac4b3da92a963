/-! # Pieces of a text

A text is cut at every occurrence of a separator. There is always one piece more than there are
separators, so pieces may be empty, at the ends too.
-/

set_option autoImplicit false

namespace Conform.Text

def pieces (separator : Char) : List Char → List (List Char)
  | [] => [[]]
  | c :: rest =>
    if c = separator then [] :: pieces separator rest
    else
      match pieces separator rest with
      | [] => [[c]]
      | piece :: others => (c :: piece) :: others

end Conform.Text
