import Conform.Json.Basic
import Conform.Json.Quoted

/-! # Literal schemas

The literal of a schema is data: an object whose values are tag texts, lists of tag texts, and lists
of literals again. Only the shape is decided here; the texts need not be tags, and the lists may
have any length.
-/

set_option autoImplicit false

namespace Conform

/-- What stands for one field. A list of records is a list of lists of named shapes. -/
inductive Shape where
  | tag (text : String)
  | union (texts : List String)
  | nested (schemas : List (List (String × Shape)))
deriving Repr

namespace Shape

mutual

def Distinct : Shape → Prop
  | .nested schemas => DistinctSchemas schemas
  | _ => True

def DistinctSchemas : List (List (String × Shape)) → Prop
  | [] => True
  | fields :: rest =>
    ((Entries.names fields).Nodup ∧ DistinctAll fields) ∧ DistinctSchemas rest

def DistinctAll : List (String × Shape) → Prop
  | [] => True
  | (_, shape) :: rest => shape.Distinct ∧ DistinctAll rest

end

mutual

/-- A name that fields give twice keeps its first place and takes its last shape. -/
def merged : Shape → Shape
  | .nested schemas => .nested (mergedSchemas schemas)
  | shape => shape

def mergedSchemas : List (List (String × Shape)) → List (List (String × Shape))
  | [] => []
  | fields :: rest => Entries.ofList (mergedFields fields) :: mergedSchemas rest

def mergedFields : List (String × Shape) → List (String × Shape)
  | [] => []
  | (name, shape) :: rest => (name, merged shape) :: mergedFields rest

end

theorem distinctAll_iff {fields : List (String × Shape)} :
    DistinctAll fields ↔ ∀ field ∈ fields, field.2.Distinct := by
  induction fields with
  | nil => simp [DistinctAll]
  | cons field rest ih => simp [DistinctAll, ih]

theorem distinctAll_ofList {fields : List (String × Shape)} (h : DistinctAll fields) :
    DistinctAll (Entries.ofList fields) :=
  distinctAll_iff.mpr (Entries.forall_mem_ofList (distinctAll_iff.mp h))

mutual

theorem distinct_merged : (shape : Shape) → shape.merged.Distinct
  | .tag _ => trivial
  | .union _ => trivial
  | .nested schemas => distinctSchemas_mergedSchemas schemas

theorem distinctSchemas_mergedSchemas :
    (schemas : List (List (String × Shape))) → DistinctSchemas (mergedSchemas schemas)
  | [] => trivial
  | fields :: rest =>
    ⟨⟨Entries.nodup_names_ofList _, distinctAll_ofList (distinctAll_mergedFields fields)⟩,
      distinctSchemas_mergedSchemas rest⟩

theorem distinctAll_mergedFields :
    (fields : List (String × Shape)) → DistinctAll (mergedFields fields)
  | [] => trivial
  | (_, shape) :: rest => ⟨distinct_merged shape, distinctAll_mergedFields rest⟩

end

/-- The strings of a list that holds nothing else. -/
def strings? (elements : List Json) : Option (List String) :=
  elements.mapM fun
    | .str text => some text
    | _ => none

mutual

/-- An empty list counts as a list of strings. -/
def ofJson? : Json → Option Shape
  | .str text => some (.tag text)
  | .arr elements =>
    match strings? elements with
    | some texts => some (.union texts)
    | none => (schemasOfJson? elements).map .nested
  | _ => none

def schemasOfJson? : List Json → Option (List (List (String × Shape)))
  | [] => some []
  | .obj entries :: rest => do
    let fields ← fieldsOfJson? entries
    let schemas ← schemasOfJson? rest
    return fields :: schemas
  | _ :: _ => none

def fieldsOfJson? : List (String × Json) → Option (List (String × Shape))
  | [] => some []
  | (name, json) :: rest => do
    let shape ← ofJson? json
    let fields ← fieldsOfJson? rest
    return (name, shape) :: fields

end

mutual

def toJson : Shape → Json
  | .tag text => .str text
  | .union texts => .arr (texts.map .str)
  | .nested schemas => .arr (schemasToJson schemas)

def schemasToJson : List (List (String × Shape)) → List Json
  | [] => []
  | fields :: rest => .obj (fieldsToJson fields) :: schemasToJson rest

def fieldsToJson : List (String × Shape) → List (String × Json)
  | [] => []
  | (name, shape) :: rest => (name, shape.toJson) :: fieldsToJson rest

end

def textOfList (texts : List String) : String := "[" ++ ",".intercalate texts ++ "]"

def textOfEntries (texts : List (String × String)) : String :=
  let members := texts.map fun (name, text) => Json.quoted name ++ ":" ++ text
  "\x7b" ++ ",".intercalate members ++ "\x7d"

mutual

/-- JSON text without blanks. -/
def text : Shape → String
  | .tag text => Json.quoted text
  | .union texts => textOfList (texts.map Json.quoted)
  | .nested schemas => textOfList (textsOfSchemas schemas)

def textsOfSchemas : List (List (String × Shape)) → List String
  | [] => []
  | fields :: rest => textOfEntries (textsOfFields fields) :: textsOfSchemas rest

def textsOfFields : List (String × Shape) → List (String × String)
  | [] => []
  | (name, shape) :: rest => (name, shape.text) :: textsOfFields rest

end

mutual

/-- Shapes compare without regard to the order of fields, but in the order of their lists. -/
def same : Shape → Shape → Bool
  | .tag x, .tag y => x == y
  | .union xs, .union ys => xs == ys
  | .nested xs, .nested ys => sameSchemas xs ys
  | _, _ => false

def sameSchemas : List (List (String × Shape)) → List (List (String × Shape)) → Bool
  | [], [] => true
  | xs :: xss, ys :: yss => xs.length == ys.length && sameFields xs ys && sameSchemas xss yss
  | _, _ => false

def sameFields : List (String × Shape) → List (String × Shape) → Bool
  | [], _ => true
  | (name, x) :: xs, ys => (ys.lookup name).any (same x) && sameFields xs ys

end

end Shape

structure Literal where
  fields : Entries Shape
  distinct : (Entries.names fields).Nodup ∧ Shape.DistinctAll fields

namespace Literal

def ofFields (fields : List (String × Shape)) : Literal where
  fields := Entries.ofList (Shape.mergedFields fields)
  distinct := ⟨Entries.nodup_names_ofList _,
    Shape.distinctAll_ofList (Shape.distinctAll_mergedFields fields)⟩

/-- The literal that data has the shape of. Every entry must have a shape of its own, also one that
a later entry of the same name replaces. -/
def ofJson? : Json → Option Literal
  | .obj entries => (Shape.fieldsOfJson? entries).map ofFields
  | _ => none

def toJson (literal : Literal) : Json := .obj (Shape.fieldsToJson literal.fields)

def text (literal : Literal) : String := Shape.textOfEntries (Shape.textsOfFields literal.fields)

def same (x y : Literal) : Bool :=
  x.fields.length == y.fields.length && Shape.sameFields x.fields y.fields

end Literal

end Conform
