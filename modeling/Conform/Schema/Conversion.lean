import Conform.Schema.Form
import Conform.Schema.Literal
import Conform.Text.Quoted

/-! # Between literals and schemas

A literal is read field by field, each field in depth before the next, and the first thing that is
wrong is reported. Every schema has a literal, but a union of no kinds has one that is not read.
-/

set_option autoImplicit false

namespace Conform

inductive LiteralError where
  | invalidTag (text : String)
  | emptyList (field : String)
  | invalidUnionMember (text : String)
  | invalidNestedArity (count : Nat)
deriving DecidableEq, Repr

def LiteralError.message : LiteralError → String
  | .invalidTag text => "invalid tag: " ++ Text.quoted text
  | .emptyList field => "empty type list for field " ++ Text.quoted field
  | .invalidUnionMember text =>
    "union members must be plain scalar tags, got " ++ Text.quoted text
  | .invalidNestedArity count =>
    "nested type list must hold exactly one schema, got " ++ toString count

namespace Form

def unionMember (text : String) : Except LiteralError Kind :=
  match Tag.parse? text with
  | some tag => if tag.isPlain then .ok tag.kind else .error (.invalidUnionMember text)
  | none => .error (.invalidTag text)

def unionMembers : List String → Except LiteralError (List Kind)
  | [] => .ok []
  | text :: rest => do
    let kind ← unionMember text
    let kinds ← unionMembers rest
    return kind :: kinds

mutual

/-- The form that a shape stands for in the field of this name. -/
def ofShape (name : String) : Shape → Except LiteralError Form
  | .tag text =>
    match Tag.parse? text with
    | some tag => .ok (.scalar tag)
    | none => .error (.invalidTag text)
  | .union [] => .error (.emptyList name)
  | .union (text :: rest) => return .union (← unionMembers (text :: rest))
  | .nested [fields] => return .nested (← ofShapes fields)
  | .nested schemas => .error (.invalidNestedArity schemas.length)

def ofShapes : List (String × Shape) → Except LiteralError (List (String × Form))
  | [] => .ok []
  | (name, shape) :: rest => do
    let form ← ofShape name shape
    let forms ← ofShapes rest
    return (name, form) :: forms

end

theorem ofShapes_cons {name : String} {shape : Shape} {fields : List (String × Shape)}
    {forms : List (String × Form)} (h : ofShapes ((name, shape) :: fields) = .ok forms) :
    ∃ form rest, ofShape name shape = .ok form ∧ ofShapes fields = .ok rest ∧
      forms = (name, form) :: rest := by
  rw [ofShapes] at h
  match hForm : ofShape name shape, hRest : ofShapes fields with
  | .error _, _ => simp [hForm, bind, Except.bind] at h
  | .ok _, .error _ => simp [hForm, hRest, bind, Except.bind] at h
  | .ok form, .ok rest =>
    simp only [hForm, hRest, bind, Except.bind, pure, Except.pure, Except.ok.injEq] at h
    exact ⟨form, rest, rfl, rfl, h.symm⟩

theorem names_ofShapes {fields : List (String × Shape)} {forms : List (String × Form)}
    (h : ofShapes fields = .ok forms) : Entries.names forms = Entries.names fields := by
  induction fields generalizing forms with
  | nil =>
    cases h
    rfl
  | cons field rest ih =>
    obtain ⟨form, others, _, hOthers, rfl⟩ := ofShapes_cons h
    simpa [Entries.names] using ih hOthers

theorem ofShape_nested {name : String} {schemas : List (List (String × Shape))} {form : Form}
    (h : ofShape name (.nested schemas) = .ok form) :
    ∃ fields forms, schemas = [fields] ∧ ofShapes fields = .ok forms ∧ form = .nested forms := by
  match schemas with
  | [] => cases h
  | [fields] =>
    rw [ofShape] at h
    match hForms : ofShapes fields with
    | .error _ => simp [hForms, bind, Except.bind] at h
    | .ok forms =>
      simp only [hForms, bind, Except.bind, pure, Except.pure, Except.ok.injEq] at h
      exact ⟨fields, forms, rfl, hForms, h.symm⟩
  | _ :: _ :: _ => cases h

theorem ofShape_union {name : String} {texts : List String} {form : Form}
    (h : ofShape name (.union texts) = .ok form) :
    ∃ kinds, unionMembers texts = .ok kinds ∧ form = .union kinds := by
  match texts with
  | [] => cases h
  | text :: rest =>
    rw [ofShape] at h
    match hKinds : unionMembers (text :: rest) with
    | .error _ => simp [hKinds, bind, Except.bind] at h
    | .ok kinds =>
      simp only [hKinds, bind, Except.bind, pure, Except.pure, Except.ok.injEq] at h
      exact ⟨kinds, rfl, h.symm⟩

theorem ofShape_tag {name text : String} {form : Form} (h : ofShape name (.tag text) = .ok form) :
    ∃ tag, Tag.parse? text = some tag ∧ form = .scalar tag := by
  rw [ofShape] at h
  split at h
  · rename_i tag hTag
    cases h
    exact ⟨tag, hTag, rfl⟩
  · cases h

mutual

theorem distinct_ofShape (name : String) (shape : Shape) {form : Form}
    (h : ofShape name shape = .ok form) (hDistinct : shape.Distinct) : form.Distinct := by
  match shape with
  | .tag _ =>
    obtain ⟨_, _, rfl⟩ := ofShape_tag h
    trivial
  | .union _ =>
    obtain ⟨_, _, rfl⟩ := ofShape_union h
    trivial
  | .nested [fields] =>
    obtain ⟨_, forms, hOne, hForms, rfl⟩ := ofShape_nested h
    cases hOne
    exact ⟨names_ofShapes hForms ▸ hDistinct.1.1, distinctAll_ofShapes fields hForms hDistinct.1.2⟩

theorem distinctAll_ofShapes (fields : List (String × Shape)) {forms : List (String × Form)}
    (h : ofShapes fields = .ok forms) (hDistinct : Shape.DistinctAll fields) :
    DistinctAll forms := by
  match fields with
  | [] =>
    cases h
    trivial
  | (name, shape) :: rest =>
    obtain ⟨form, others, hForm, hOthers, rfl⟩ := ofShapes_cons h
    exact ⟨distinct_ofShape name shape hForm hDistinct.1,
      distinctAll_ofShapes rest hOthers hDistinct.2⟩

end

end Form

namespace Shape

mutual

def ofForm : Form → Shape
  | .scalar t => .tag t.text
  | .union kinds => .union (kinds.map Kind.text)
  | .nested fields => .nested [ofForms fields]

def ofForms : List (String × Form) → List (String × Shape)
  | [] => []
  | (name, form) :: rest => (name, ofForm form) :: ofForms rest

end

theorem names_ofForms (fields : List (String × Form)) :
    Entries.names (ofForms fields) = Entries.names fields := by
  induction fields with
  | nil => rfl
  | cons field rest ih => simpa [Entries.names, ofForms] using ih

mutual

theorem distinct_ofForm : (form : Form) → form.Distinct → (ofForm form).Distinct
  | .scalar _, _ => trivial
  | .union _, _ => trivial
  | .nested fields, h => ⟨⟨names_ofForms fields ▸ h.1, distinctAll_ofForms fields h.2⟩, trivial⟩

theorem distinctAll_ofForms :
    (fields : List (String × Form)) → Form.DistinctAll fields → DistinctAll (ofForms fields)
  | [], _ => trivial
  | (_, form) :: rest, h => ⟨distinct_ofForm form h.1, distinctAll_ofForms rest h.2⟩

end

end Shape

namespace Schema

def ofLiteral (literal : Literal) : Except LiteralError Schema :=
  match h : Form.ofShapes literal.fields with
  | .ok fields => .ok
      { fields
        distinct := ⟨Form.names_ofShapes h ▸ literal.distinct.1,
          Form.distinctAll_ofShapes _ h literal.distinct.2⟩ }
  | .error error => .error error

def toLiteral (schema : Schema) : Literal where
  fields := Shape.ofForms schema.fields
  distinct := ⟨Shape.names_ofForms _ ▸ schema.distinct.1,
    Shape.distinctAll_ofForms _ schema.distinct.2⟩

end Schema

end Conform
