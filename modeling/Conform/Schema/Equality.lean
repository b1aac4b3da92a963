import Conform.Schema.Form

/-! # Equality of schemas

Two schemas are equal if each field of the one has an equal form under the same name in the other,
whatever the order of the fields. The order of the kinds in a union counts.
-/

set_option autoImplicit false

namespace Conform

namespace Form

mutual

def same : Form → Form → Bool
  | .scalar x, .scalar y => x == y
  | .union xs, .union ys => xs == ys
  | .nested xs, .nested ys => xs.length == ys.length && sameFields xs ys
  | _, _ => false

/-- Every field of the first list has its equal under the same name in the second. -/
def sameFields : List (String × Form) → List (String × Form) → Bool
  | [], _ => true
  | (name, x) :: xs, ys => (ys.lookup name).any (same x) && sameFields xs ys

end

end Form

def Schema.same (x y : Schema) : Bool := x.form.same y.form

end Conform
