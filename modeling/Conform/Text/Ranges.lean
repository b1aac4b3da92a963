/-! # Character sets as ranges

A set of characters is given by ranges of code points, both ends included, in ascending order.
-/

set_option autoImplicit false

namespace Conform.Text

abbrev Ranges := List (Nat × Nat)

/-- The search stops at the first range that ends at the character or beyond it. -/
def Ranges.has (c : Char) : Ranges → Bool
  | [] => false
  | (first, last) :: rest => if c.toNat ≤ last then decide (first ≤ c.toNat) else Ranges.has c rest

end Conform.Text
