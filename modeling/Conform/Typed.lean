import Conform.Coerce.Outcome

/-! # Typed records

Accepted records as values of fixed types. Names that a type does not know are ignored, an optional
field may be missing or null, and an integer field takes only an integer of 64 signed bits, never a
double.
-/

set_option autoImplicit false

namespace Conform

namespace Json

def toInt64? : Json → Option Int64
  | .num (.int value _) => if value < 0x8000000000000000 then some (.ofInt value) else none
  | _ => none

def toString? : Json → Option String
  | .str text => some text
  | _ => none

def toBool? : Json → Option Bool
  | .bool b => some b
  | _ => none

end Json

namespace Record

def required? {α : Type} (read? : Json → Option α) (name : String) (record : Record) : Option α :=
  (record.lookup name).bind read?

def optional? {α : Type} (read? : Json → Option α) (name : String) (record : Record) :
    Option (Option α) :=
  match record.lookup name with
  | none | some .null => some none
  | some value => (read? value).map some

end Record

/-- A page of a listing. -/
structure Query where
  page : Int64
  tags : List String
  debug : Option Bool
deriving DecidableEq

namespace Query

def ofRecord? (record : Record) : Option Query := do
  let page ← record.required? Json.toInt64? "page"
  let tags ← record.required? (fun value => value.toElements?.bind (·.mapM Json.toString?)) "tags"
  let debug ← record.optional? Json.toBool? "debug"
  return { page, tags, debug }

end Query

structure Item where
  id : Int64
  label : Option String
deriving DecidableEq

namespace Item

def ofRecord? (record : Record) : Option Item := do
  let id ← record.required? Json.toInt64? "id"
  let label ← record.optional? Json.toString? "label"
  return { id, label }

def ofJson? (json : Json) : Option Item := json.toRecord?.bind ofRecord?

end Item

structure Order where
  items : List Item
deriving DecidableEq

namespace Order

def ofRecord? (record : Record) : Option Order := do
  let items ← record.required? (fun value => value.toElements?.bind (·.mapM Item.ofJson?)) "items"
  return { items }

end Order

/-- Why an outcome gives no typed value. -/
inductive TypedError where
  | rejected (path : Path)
  | faulted (cause : Fault)
  | mismatch
deriving DecidableEq

def Outcome.toTyped {α : Type} (ofRecord? : Record → Option α) : Outcome → Except TypedError α
  | .rejected path => .error (.rejected path)
  | .faulted cause => .error (.faulted cause)
  | .accepted record =>
    match ofRecord? record with
    | some value => .ok value
    | none => .error .mismatch

end Conform
