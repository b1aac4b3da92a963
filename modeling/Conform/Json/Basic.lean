import Conform.Entries
import Conform.Json.Number

/-! # Data

Data in the form of JSON. The entries of an object keep their order, and a name is looked up at its
first occurrence.
-/

set_option autoImplicit false

namespace Conform

inductive Json where
  | null
  | bool (value : Bool)
  | num (value : Number)
  | str (value : String)
  | arr (elements : List Json)
  | obj (entries : List (String × Json))
deriving Repr

abbrev Record := Entries Json

namespace Json

-- Types that hold lists of themselves have no derived decision of equality.
mutual

def identical : Json → Json → Bool
  | .null, .null => true
  | .bool x, .bool y => x == y
  | .num x, .num y => x == y
  | .str x, .str y => x == y
  | .arr xs, .arr ys => identicalElements xs ys
  | .obj xs, .obj ys => identicalEntries xs ys
  | _, _ => false

def identicalElements : List Json → List Json → Bool
  | [], [] => true
  | x :: xs, y :: ys => identical x y && identicalElements xs ys
  | _, _ => false

def identicalEntries : List (String × Json) → List (String × Json) → Bool
  | [], [] => true
  | (m, x) :: xs, (n, y) :: ys => m == n && identical x y && identicalEntries xs ys
  | _, _ => false

end

mutual

theorem identical_iff : (x y : Json) → (identical x y = true ↔ x = y)
  | .null, y => by cases y <;> simp [identical]
  | .bool _, y => by cases y <;> simp [identical]
  | .num _, y => by cases y <;> simp [identical]
  | .str _, y => by cases y <;> simp [identical]
  | .arr xs, y => by cases y <;> simp [identical, identicalElements_iff xs]
  | .obj xs, y => by cases y <;> simp [identical, identicalEntries_iff xs]

theorem identicalElements_iff : (xs ys : List Json) → (identicalElements xs ys = true ↔ xs = ys)
  | [], ys => by cases ys <;> simp [identicalElements]
  | x :: xs, ys => by
    cases ys <;> simp [identicalElements, identical_iff x, identicalElements_iff xs]

theorem identicalEntries_iff :
    (xs ys : List (String × Json)) → (identicalEntries xs ys = true ↔ xs = ys)
  | [], ys => by cases ys <;> simp [identicalEntries]
  | (m, x) :: xs, ys => by
    cases ys <;> simp [identicalEntries, identical_iff x, identicalEntries_iff xs, Prod.ext_iff]

end

instance : DecidableEq Json := fun x y => decidable_of_iff _ (identical_iff x y)

def isArray : Json → Bool
  | .arr _ => true
  | _ => false

def toElements? : Json → Option (List Json)
  | .arr elements => some elements
  | _ => none

def toRecord? : Json → Option Record
  | .obj entries => some entries
  | _ => none

mutual

/-- Objects compare without regard to the order of their names, doubles by their values. -/
def same : Json → Json → Bool
  | .null, .null => true
  | .bool x, .bool y => x == y
  | .num x, .num y => x.same y
  | .str x, .str y => x == y
  | .arr xs, .arr ys => sameElements xs ys
  | .obj xs, .obj ys => xs.length == ys.length && sameEntries xs ys
  | _, _ => false

def sameElements : List Json → List Json → Bool
  | [], [] => true
  | x :: xs, y :: ys => same x y && sameElements xs ys
  | _, _ => false

/-- Every entry of the first record has its equal under the same name in the second. -/
def sameEntries : Record → Record → Bool
  | [], _ => true
  | (name, x) :: xs, ys => (ys.lookup name).any (same x) && sameEntries xs ys

end

end Json

def Record.same (x y : Record) : Bool := Json.same (.obj x) (.obj y)

end Conform
