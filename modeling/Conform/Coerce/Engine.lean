import Conform.Coerce.Scalar
import Conform.Schema.Form

/-! # Coercion of records

The engine walks a schema and an input together, field by field in the order of the schema. Its state
holds the options, which are looked up where they are needed, and a cursor that knows the path and how
many records are open. It stops at the first failure and leaves the cursor there, so the path of a
rejection is read off the cursor.
-/

set_option autoImplicit false

namespace Conform

structure Cursor where
  path : Path := []
  depth : Nat := 0
deriving DecidableEq, Repr

structure Engine.State where
  options : Options := {}
  cursor : Cursor := {}
deriving DecidableEq, Repr

abbrev Engine := EStateM Failure Engine.State

namespace Engine

def ofExcept {α : Type} : Except Failure α → Engine α
  | .ok value => pure value
  | .error failure => throw failure

def moveCursor (move : Cursor → Cursor) : Engine Unit :=
  modify fun state => { state with cursor := move state.cursor }

def descend (token : String) : Engine Unit :=
  moveCursor fun cursor => { cursor with path := cursor.path ++ [token] }

def ascend : Engine Unit :=
  moveCursor fun cursor => { cursor with path := cursor.path.dropLast }

/-- Opens a record, before its input is looked at. -/
def enter : Engine Unit := do
  moveCursor fun cursor => { cursor with depth := cursor.depth + 1 }
  let state ← get
  if state.options.maxDepth ≠ 0 ∧ state.options.maxDepth < state.cursor.depth then
    throw (.fault .depthExceeded)

def leave : Engine Unit :=
  moveCursor fun cursor => { cursor with depth := cursor.depth - 1 }

/-- Coerces elements one after the other, each under its index. -/
def elementsFrom (coerce : Json → Engine Json) : Nat → List Json → Engine (List Json)
  | _, [] => return []
  | index, element :: rest => do
    descend (toString index)
    let value ← coerce element
    ascend
    let values ← elementsFrom coerce (index + 1) rest
    return value :: values

def elements (coerce : Json → Engine Json) : Option (List Json) → Engine Json
  | some elements => return .arr (← elementsFrom coerce 0 elements)
  | none => throw .rejected

def scalar (kind : Kind) (value : Json) : Engine Json := do
  let state ← get
  ofExcept (kind.coerce state.options.mode state.cursor.path value)

def list (kind : Kind) (value : Json) : Engine Json := do
  elements (scalar kind) (value.elements? (← get).options.mode)

def union (kinds : List Kind) (value : Json) : Engine Json := do
  let state ← get
  ofExcept (Kind.coerceUnion state.options.mode state.cursor.path value kinds)

/-- A record around the coercion of its fields. -/
def record (fields : Record → Engine Record) (input : Json) : Engine Record := do
  enter
  match input.toRecord? with
  | some entries =>
    let values ← fields entries
    leave
    return values
  | none => throw .rejected

mutual

def form : Form → Json → Engine Json
  | .scalar tag, value => if tag.array then list tag.kind value else scalar tag.kind value
  | .union kinds, value => union kinds value
  | .nested fields, value =>
    elements (fun item => return .obj (← record (fieldsOf fields) item)) value.toElements?

/-- A field is on the path while its name is looked up, so a missing field is named as well. -/
def fieldsOf : List (String × Form) → Record → Engine Record
  | [], _ => return []
  | (name, f) :: rest, entries => do
    descend name
    match entries.lookup name with
    | some value =>
      let value ← form f value
      ascend
      let values ← fieldsOf rest entries
      return (name, value) :: values
    | none =>
      if f.isOptional then
        ascend
        fieldsOf rest entries
      else throw .rejected

end

end Engine

/-- Coerces an input into a record of the schema. -/
def Schema.coerce (schema : Schema) (input : Json) (options : Options := {}) : Outcome :=
  match (Engine.record (Engine.fieldsOf schema.fields) input).run { options } with
  | .ok record _ => .accepted record
  | .error .rejected state => .rejected state.cursor.path
  | .error (.fault cause) _ => .faulted cause

end Conform
