import Conform.Proofs.Bind
import Conform.Proofs.LiteralData
import Conform.Proofs.TagText
import Conform.Schema.Conversion

/-! # The literal of a schema

A schema is read back from its literal with its fields in their order, unless a union in it has no
kinds: the first such union in depth is then reported under the name of its field. In turn, data that is
read as a schema is the literal of that schema to the letter, so there is no second way to write it.
-/

set_option autoImplicit false

namespace Conform

namespace Form

section Members

variable {text : String} {texts : List String} {kind : Kind} {kinds : List Kind}

theorem unionMember_eq_ok_iff : unionMember text = .ok kind ↔ text = kind.text := by
  constructor
  · intro h
    unfold unionMember at h
    split at h
    · rename_i tag hTag
      split at h
      · rename_i hPlain
        cases h
        rw [Tag.parse?_eq_some_iff] at hTag
        obtain ⟨kind, array, optional⟩ := tag
        cases array <;> cases optional <;> simp_all [Tag.isPlain, Tag.text]
      · cases h
    · cases h
  · rintro rfl
    unfold unionMember
    rw [Tag.parse?_kind]
    rfl

theorem unionMembers_eq_ok_iff : unionMembers texts = .ok kinds ↔ texts = kinds.map Kind.text := by
  induction texts generalizing kinds with
  | nil => cases kinds <;> simp [unionMembers]
  | cons text rest ih =>
    rw [unionMembers]
    simp only [bind_eq_ok_iff, unionMember_eq_ok_iff, ih]
    constructor
    · rintro ⟨kind, rfl, others, rfl, h⟩
      cases h
      rfl
    · intro h
      cases kinds with
      | nil => cases h
      | cons kind others =>
        cases h
        exact ⟨kind, rfl, others, rfl, rfl⟩

end Members

mutual

/-- A shape that is read as a form is the shape of that form. -/
theorem ofForm_of_ofShape (name : String) (shape : Shape) {form : Form}
    (h : ofShape name shape = .ok form) : Shape.ofForm form = shape := by
  match shape with
  | .tag text =>
    obtain ⟨tag, hTag, rfl⟩ := ofShape_tag h
    rw [Shape.ofForm, Tag.text_of_parse? hTag]
  | .union texts =>
    obtain ⟨kinds, hKinds, rfl⟩ := ofShape_union h
    rw [Shape.ofForm, unionMembers_eq_ok_iff.mp hKinds]
  | .nested [fields] =>
    obtain ⟨_, forms, hOne, hForms, rfl⟩ := ofShape_nested h
    cases hOne
    rw [Shape.ofForm, ofForms_of_ofShapes fields hForms]

theorem ofForms_of_ofShapes (fields : List (String × Shape)) {forms : List (String × Form)}
    (h : ofShapes fields = .ok forms) : Shape.ofForms forms = fields := by
  match fields with
  | [] =>
    cases h
    rfl
  | (name, shape) :: rest =>
    obtain ⟨form, others, hForm, hOthers, rfl⟩ := ofShapes_cons h
    rw [Shape.ofForms, ofForm_of_ofShape name shape hForm, ofForms_of_ofShapes rest hOthers]

end

end Form

namespace Shape

mutual

/-- The data of a form is read as the shape of the form. -/
theorem ofJson?_ofForm : (form : Form) → ofJson? (ofForm form).toJson = some (ofForm form)
  | .scalar _ => rfl
  | .union kinds => by
    rw [ofForm, toJson, ofJson?, strings?_eq_some_iff.mpr rfl]
  | .nested fields => by
    have hSchemas : schemasOfJson? [.obj (fieldsToJson (ofForms fields))] =
        some [ofForms fields] := by
      rw [schemasOfJson?, fieldsOfJson?_ofForms fields]
      rfl
    rw [ofForm, toJson, schemasToJson, schemasToJson, ofJson?, strings?_cons, hSchemas]
    rfl

theorem fieldsOfJson?_ofForms : (fields : List (String × Form)) →
    fieldsOfJson? (fieldsToJson (ofForms fields)) = some (ofForms fields)
  | [] => rfl
  | (name, form) :: rest => by
    rw [ofForms, fieldsToJson, fieldsOfJson?, ofJson?_ofForm form, fieldsOfJson?_ofForms rest]
    rfl

end

end Shape

namespace Form

section Leaves

mutual

/-- The forms within a form that have no fields of their own, each under the name of its field. -/
def leavesUnder (name : String) : Form → List (String × Form)
  | .nested fields => namedLeaves fields
  | form => [(name, form)]

/-- They stand in the order of the fields, those of a field in depth before those of the next. -/
def namedLeaves : List (String × Form) → List (String × Form)
  | [] => []
  | (name, form) :: rest => form.leavesUnder name ++ namedLeaves rest

end

/-- The value, unless one of the leaves is a union of no kinds. -/
def unlessEmpty {α : Type} (leaves : List (String × Form)) (value : α) : Except LiteralError α :=
  match leaves.find? fun leaf => leaf.2 = .union [] with
  | some leaf => .error (.emptyList leaf.1)
  | none => .ok value

variable {α β γ : Type} {leaves : List (String × Form)} {value : α}

theorem unlessEmpty_eq_ok_iff :
    unlessEmpty leaves value = .ok value ↔ ∀ leaf ∈ leaves, leaf.2 ≠ .union [] := by
  rw [unlessEmpty]
  split
  · rename_i leaf hLeaf
    have hMem := List.mem_of_find?_eq_some hLeaf
    have hEmpty := List.find?_some hLeaf
    simp only [decide_eq_true_eq] at hEmpty
    exact ⟨nofun, fun h => absurd hEmpty (h leaf hMem)⟩
  · rename_i hNone
    simpa using hNone

theorem unlessEmpty_eq_error_iff {name : String} :
    unlessEmpty leaves value = .error (.emptyList name) ↔ ∃ front back,
      leaves = front ++ (name, .union []) :: back ∧ ∀ leaf ∈ front, leaf.2 ≠ .union [] := by
  have hFind : (leaves.find? fun leaf => leaf.2 = .union []) = some (name, .union []) ↔
      ∃ front back, leaves = front ++ (name, .union []) :: back ∧
        ∀ leaf ∈ front, leaf.2 ≠ .union [] := by
    rw [List.find?_eq_some_iff_append]
    simp
  rw [← hFind, unlessEmpty]
  cases hLeaf : leaves.find? fun leaf => leaf.2 = .union [] with
  | none => simp
  | some leaf =>
    have hEmpty := List.find?_some hLeaf
    rw [decide_eq_true_eq] at hEmpty
    simp [Prod.ext_iff, hEmpty]

theorem unlessEmpty_map (f : α → β) (leaves : List (String × Form)) (value : α) :
    (unlessEmpty leaves value >>= fun out => .ok (f out)) = unlessEmpty leaves (f value) := by
  rw [unlessEmpty, unlessEmpty]
  split <;> rfl

theorem unlessEmpty_append (f : α → β → γ) (leaves others : List (String × Form)) (first : α)
    (second : β) :
    (unlessEmpty leaves first >>= fun x => unlessEmpty others second >>= fun y => .ok (f x y)) =
      unlessEmpty (leaves ++ others) (f first second) := by
  simp only [unlessEmpty, List.find?_append]
  cases leaves.find? fun leaf => leaf.2 = .union [] with
  | some leaf => rfl
  | none => cases others.find? fun leaf => leaf.2 = .union [] <;> rfl

mutual

/-- Reading a form back from its shape fails only at a union of no kinds. -/
theorem ofShape_ofForm (name : String) : (form : Form) →
    ofShape name (Shape.ofForm form) = unlessEmpty (form.leavesUnder name) form
  | .scalar tag => by
    rw [Shape.ofForm, ofShape, Tag.parse?_text]
    rfl
  | .union [] => rfl
  | .union (kind :: rest) => by
    have hKinds : unionMembers (kind.text :: rest.map Kind.text) = .ok (kind :: rest) :=
      unionMembers_eq_ok_iff.mpr rfl
    rw [Shape.ofForm, List.map_cons, ofShape, hKinds]
    rfl
  | .nested fields => by
    rw [Shape.ofForm, ofShape, ofShapes_ofForms fields, leavesUnder]
    exact unlessEmpty_map Form.nested _ fields

theorem ofShapes_ofForms : (fields : List (String × Form)) →
    ofShapes (Shape.ofForms fields) = unlessEmpty (namedLeaves fields) fields
  | [] => rfl
  | (name, form) :: rest => by
    rw [Shape.ofForms, ofShapes, ofShape_ofForm name form, ofShapes_ofForms rest, namedLeaves]
    exact unlessEmpty_append (fun form forms => (name, form) :: forms) _ _ form rest

end

end Leaves

end Form

theorem Literal.ofJson?_toJson (schema : Schema) :
    Literal.ofJson? schema.toLiteral.toJson = some schema.toLiteral := by
  rw [toJson, ofJson?, Schema.toLiteral, Shape.fieldsOfJson?_ofForms, Option.map_some,
    ofFields_of_distinct]

namespace Schema

section Reading

variable {literal : Literal} {schema : Schema}

theorem ofLiteral_eq_ok_iff :
    ofLiteral literal = .ok schema ↔ Form.ofShapes literal.fields = .ok schema.fields := by
  rw [ofLiteral]
  split
  · rename_i forms hForms
    constructor
    · intro h
      cases h
      exact hForms
    · intro h
      obtain rfl := Except.ok.inj (hForms.symm.trans h)
      rfl
  · rename_i error hError
    simp [hError]

theorem ofLiteral_eq_error_iff {error : LiteralError} :
    ofLiteral literal = .error error ↔ Form.ofShapes literal.fields = .error error := by
  rw [ofLiteral]
  split
  · rename_i forms hForms
    simp [hForms]
  · rename_i other hOther
    simp [hOther]

end Reading

def namedLeaves (schema : Schema) : List (String × Form) := Form.namedLeaves schema.fields

/-- The literal of a schema is data that is read as this literal again. It is converted to the schema,
fields in their order at every level, exactly if no union in it is empty. If one is, the first in depth
is reported under the name of its field. -/
theorem ofLiteral_toLiteral (schema : Schema) :
    Literal.ofJson? schema.toLiteral.toJson = some schema.toLiteral ∧
    (ofLiteral schema.toLiteral = .ok schema ↔
      ∀ leaf ∈ schema.namedLeaves, leaf.2 ≠ .union []) ∧
    ∀ name, ofLiteral schema.toLiteral = .error (.emptyList name) ↔ ∃ front back,
      schema.namedLeaves = front ++ (name, .union []) :: back ∧
        ∀ leaf ∈ front, leaf.2 ≠ .union [] := by
  refine ⟨Literal.ofJson?_toJson schema, ?_, ?_⟩
  · rw [ofLiteral_eq_ok_iff, toLiteral, Form.ofShapes_ofForms]
    exact Form.unlessEmpty_eq_ok_iff
  · intro name
    rw [ofLiteral_eq_error_iff, toLiteral, Form.ofShapes_ofForms]
    exact Form.unlessEmpty_eq_error_iff

/-- The data is a literal that converts to the schema. -/
def ReadsFrom (schema : Schema) (json : Json) : Prop :=
  ∃ literal, Literal.ofJson? json = some literal ∧ ofLiteral literal = .ok schema

theorem toJson_toLiteral_of_readsFrom {schema : Schema} {json : Json} (hDistinct : json.Distinct)
    (h : schema.ReadsFrom json) : schema.toLiteral.toJson = json := by
  obtain ⟨literal, hRead, hSchema⟩ := h
  have hFields := Form.ofForms_of_ofShapes _ (ofLiteral_eq_ok_iff.mp hSchema)
  calc
    schema.toLiteral.toJson = .obj (Shape.fieldsToJson (Shape.ofForms schema.fields)) := rfl
    _ = literal.toJson := by rw [hFields, Literal.toJson]
    _ = json := Literal.toJson_of_ofJson? hRead hDistinct

/-- Data that is read as a schema is the literal of that schema, with its names, lists and tags in their
order. So no other data is read as the same schema. -/
theorem eq_of_readsFrom (schema : Schema) (json : Json) (hDistinct : json.Distinct)
    (h : schema.ReadsFrom json) :
    schema.toLiteral.toJson = json ∧
    ∀ other : Json, other.Distinct → schema.ReadsFrom other → other = json := by
  have hJson := toJson_toLiteral_of_readsFrom hDistinct h
  refine ⟨hJson, ?_⟩
  intro other hOtherDistinct hOther
  rw [← hJson]
  exact (toJson_toLiteral_of_readsFrom hOtherDistinct hOther).symm

def ticketSchema : Schema :=
  .ofFields [("tags", .scalar { kind := .string, array := true, optional := true }),
    ("steps", .nested [("due", .union [.int, .null]), ("done", .scalar { kind := .boolean })])]

def ticketJson : Json :=
  .obj [("tags", .str "string[]?"),
    ("steps", .arr [.obj [("due", .arr [.str "int", .str "null"]), ("done", .str "boolean")]])]

theorem eq_of_readsFrom_ticket :
    ticketSchema.ReadsFrom ticketJson ∧ ticketSchema.toLiteral.toJson = ticketJson := by
  have hDistinct : ticketJson.Distinct := by
    simp [ticketJson, Json.Distinct, Json.DistinctEntries, Json.DistinctElements]
  have h : ticketSchema.ReadsFrom ticketJson := by
    refine ⟨_, rfl, ?_⟩
    rw [ofLiteral_eq_ok_iff]
    rfl
  exact ⟨h, (eq_of_readsFrom ticketSchema ticketJson hDistinct h).1⟩

end Schema

end Conform
