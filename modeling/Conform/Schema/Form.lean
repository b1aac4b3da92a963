import Conform.Entries
import Conform.Schema.Tag

/-! # Forms and schemas

A form constrains one field: a tag, a union of kinds tried in their order, or a list of records
again. A schema is a list of fields of which no two share a name, at every level.
-/

set_option autoImplicit false

namespace Conform

inductive Form where
  | scalar (tag : Tag)
  | union (kinds : List Kind)
  | nested (fields : List (String × Form))
deriving Repr

namespace Form

-- Types that hold lists of themselves have no derived decision of equality.
mutual

def identical : Form → Form → Bool
  | .scalar x, .scalar y => x == y
  | .union xs, .union ys => xs == ys
  | .nested xs, .nested ys => identicalFields xs ys
  | _, _ => false

def identicalFields : List (String × Form) → List (String × Form) → Bool
  | [], [] => true
  | (m, x) :: xs, (n, y) :: ys => m == n && identical x y && identicalFields xs ys
  | _, _ => false

end

mutual

theorem identical_iff : (x y : Form) → (identical x y = true ↔ x = y)
  | .scalar _, y => by cases y <;> simp [identical]
  | .union _, y => by cases y <;> simp [identical]
  | .nested xs, y => by cases y <;> simp [identical, identicalFields_iff xs]

theorem identicalFields_iff :
    (xs ys : List (String × Form)) → (identicalFields xs ys = true ↔ xs = ys)
  | [], ys => by cases ys <;> simp [identicalFields]
  | (m, x) :: xs, ys => by
    cases ys <;> simp [identicalFields, identical_iff x, identicalFields_iff xs, Prod.ext_iff]

end

instance : DecidableEq Form := fun x y => decidable_of_iff _ (identical_iff x y)

def isOptional : Form → Bool
  | .scalar tag => tag.optional
  | _ => false

mutual

def Distinct : Form → Prop
  | .nested fields => (Entries.names fields).Nodup ∧ DistinctAll fields
  | _ => True

def DistinctAll : List (String × Form) → Prop
  | [] => True
  | (_, form) :: rest => form.Distinct ∧ DistinctAll rest

end

mutual

/-- A name that fields give twice keeps its first place and takes its last form. -/
def merged : Form → Form
  | .nested fields => .nested (Entries.ofList (mergedFields fields))
  | form => form

def mergedFields : List (String × Form) → List (String × Form)
  | [] => []
  | (name, form) :: rest => (name, merged form) :: mergedFields rest

end

theorem distinctAll_iff {fields : List (String × Form)} :
    DistinctAll fields ↔ ∀ field ∈ fields, field.2.Distinct := by
  induction fields with
  | nil => simp [DistinctAll]
  | cons field rest ih => simp [DistinctAll, ih]

mutual

theorem distinct_merged : (form : Form) → form.merged.Distinct
  | .scalar _ => trivial
  | .union _ => trivial
  | .nested fields => ⟨Entries.nodup_names_ofList _, distinctAll_iff.mpr
      (Entries.forall_mem_ofList (distinctAll_iff.mp (distinctAll_mergedFields fields)))⟩

theorem distinctAll_mergedFields :
    (fields : List (String × Form)) → DistinctAll (mergedFields fields)
  | [] => trivial
  | (_, form) :: rest => ⟨distinct_merged form, distinctAll_mergedFields rest⟩

end

end Form

structure Schema where
  fields : Entries Form
  distinct : (Form.nested fields).Distinct
deriving DecidableEq

namespace Schema

def ofFields (fields : List (String × Form)) : Schema where
  fields := Entries.ofList (Form.mergedFields fields)
  distinct := Form.distinct_merged (.nested fields)

/-- The form of a field that holds a list of records. -/
def form (schema : Schema) : Form := .nested schema.fields

end Schema

end Conform
