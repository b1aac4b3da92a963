import Conform.Proofs.RoundTrip
import Mathlib.Data.Set.List

/-! # Errors of literals

A literal converts exactly if every tag, union and list of schemas in it is well formed. Otherwise the
error is that of the first place that is not, fields in their order, each in depth before the next,
and members of a union in theirs. A list of more or fewer schemas than one is not looked into.
-/

set_option autoImplicit false

namespace Conform

section First

variable {α : Type} {passes fails : α → Prop}

/-- An element fails, and all before it pass. -/
def First (passes fails : α → Prop) (elements : List α) : Prop :=
  ∃ front element back, elements = front ++ element :: back ∧
    (∀ other ∈ front, passes other) ∧ fails element

theorem not_first_nil : ¬ First passes fails [] := by
  rintro ⟨front, _, _, h, _⟩
  cases front <;> cases h

theorem first_cons_iff {element : α} {rest : List α} :
    First passes fails (element :: rest) ↔
      fails element ∨ passes element ∧ First passes fails rest := by
  constructor
  · rintro ⟨front, other, back, h, hFront, hOther⟩
    cases front with
    | nil =>
      cases h
      exact Or.inl hOther
    | cons first front =>
      cases h
      obtain ⟨hFirst, hFront⟩ := List.forall_mem_cons.mp hFront
      exact Or.inr ⟨hFirst, front, other, back, rfl, hFront, hOther⟩
  · rintro (hElement | ⟨hElement, front, other, back, rfl, hFront, hOther⟩)
    · exact ⟨[], element, rest, rfl, nofun, hElement⟩
    · exact ⟨element :: front, other, back, rfl, List.forall_mem_cons.mpr ⟨hElement, hFront⟩, hOther⟩

end First

namespace Shape

/-- The name of a kind, then perhaps `[]`, then perhaps `?`. -/
def IsTag (text : String) : Prop :=
  ∃ kind : Kind, ∃ list ∈ ["", "[]"], ∃ mark ∈ ["", "?"], text = kind.text ++ list ++ mark

def IsKind (text : String) : Prop := ∃ kind : Kind, text = kind.text

inductive WellFormed : Shape → Prop
  | tag {text : String} : IsTag text → WellFormed (.tag text)
  | union {texts : List String} : texts ≠ [] → (∀ text ∈ texts, IsKind text) →
      WellFormed (.union texts)
  | nested {fields : List (String × Shape)} : (∀ field ∈ fields, WellFormed field.2) →
      WellFormed (.nested [fields])

/-- What is wrong with a text as a member of a union. -/
inductive MemberError : String → LiteralError → Prop
  | noTag {text : String} : ¬ IsTag text → MemberError text (.invalidTag text)
  | marked {tag : Tag} : tag.array = true ∨ tag.optional = true →
      MemberError tag.text (.invalidUnionMember tag.text)

/-- What is wrong at the first place where a shape is not well formed. The shape stands in the field
of the given name. -/
inductive FirstError : String → Shape → LiteralError → Prop
  | tag {name text : String} : ¬ IsTag text → FirstError name (.tag text) (.invalidTag text)
  | empty {name : String} : FirstError name (.union []) (.emptyList name)
  | member {name : String} {texts : List String} {error : LiteralError} :
      First IsKind (MemberError · error) texts → FirstError name (.union texts) error
  | arity {name : String} {schemas : List (List (String × Shape))} : schemas.length ≠ 1 →
      FirstError name (.nested schemas) (.invalidNestedArity schemas.length)
  | field {name inner : String} {shape : Shape} {front back : List (String × Shape)}
      {error : LiteralError} : (∀ field ∈ front, field.2.WellFormed) → FirstError inner shape error →
      FirstError name (.nested [front ++ (inner, shape) :: back]) error

section Texts

variable {text : String} {texts : List String} {error : LiteralError}

theorem isTag_iff : IsTag text ↔ ∃ tag, Tag.parse? text = some tag := by
  simp only [Tag.parse?_eq_some_iff]
  constructor
  · rintro ⟨kind, list, hList, mark, hMark, rfl⟩
    refine ⟨{ kind, array := list == "[]", optional := mark == "?" }, ?_⟩
    simp only [List.mem_cons, List.not_mem_nil, or_false] at hList hMark
    rcases hList with rfl | rfl <;> rcases hMark with rfl | rfl <;> rfl
  · rintro ⟨⟨kind, array, optional⟩, rfl⟩
    refine ⟨kind, if array then "[]" else "", ?_, if optional then "?" else "", ?_, rfl⟩
    · cases array <;> simp
    · cases optional <;> simp

theorem parse?_eq_none_iff : Tag.parse? text = none ↔ ¬ IsTag text := by
  rw [isTag_iff, ← Option.isSome_iff_exists, Bool.not_eq_true, Option.isSome_eq_false_iff,
    Option.isNone_iff_eq_none]

theorem unionMember_eq_error_iff : Form.unionMember text = .error error ↔ MemberError text error := by
  unfold Form.unionMember
  constructor
  · intro h
    split at h
    · rename_i tag hTag
      obtain rfl := Tag.parse?_eq_some_iff.mp hTag
      split at h
      · cases h
      · rename_i hPlain
        cases h
        refine .marked ?_
        cases hArray : tag.array <;> cases hOptional : tag.optional <;> simp_all [Tag.isPlain]
    · rename_i hNone
      cases h
      exact .noTag (parse?_eq_none_iff.mp hNone)
  · intro h
    cases h with
    | noTag hText => rw [parse?_eq_none_iff.mpr hText]
    | @marked tag hMark =>
      have hPlain : ¬ tag.isPlain = true := by
        rcases hMark with h | h <;> simp [Tag.isPlain, h]
      rw [Tag.parse?_text]
      exact if_neg hPlain

theorem unionMembers_eq_error_iff : Form.unionMembers texts = .error error ↔
    First IsKind (MemberError · error) texts := by
  induction texts with
  | nil => exact ⟨nofun, fun h => absurd h not_first_nil⟩
  | cons text rest ih =>
    rw [Form.unionMembers, bind_eq_error_iff, first_cons_iff, unionMember_eq_error_iff]
    simp only [bind_pure_eq_error_iff, Form.unionMember_eq_ok_iff, ih, exists_and_right]
    rfl

end Texts

section Conversion

variable {name : String} {texts : List String} {schemas : List (List (String × Shape))}
  {error : LiteralError}

theorem exists_unionMembers_iff :
    (∃ kinds, Form.unionMembers texts = .ok kinds) ↔ ∀ text ∈ texts, IsKind text := by
  simp only [Form.unionMembers_eq_ok_iff]
  have hRange := Set.ext_iff.mp (Set.range_list_map Kind.text) texts
  simpa only [IsKind, Set.mem_range, Set.mem_ofPred_eq, eq_comm] using hRange

theorem ofShape_of_arity (h : schemas.length ≠ 1) :
    Form.ofShape name (.nested schemas) = .error (.invalidNestedArity schemas.length) := by
  match schemas with
  | [] => rfl
  | [_] => exact absurd rfl h
  | _ :: _ :: _ => rfl

theorem firstError_of_arity (h : schemas.length ≠ 1) :
    FirstError name (.nested schemas) error ↔ error = .invalidNestedArity schemas.length := by
  constructor
  · intro hError
    cases hError with
    | arity => rfl
    | field => exact absurd rfl h
  · rintro rfl
    exact .arity h

theorem firstError_nested_iff {fields : List (String × Shape)} :
    FirstError name (.nested [fields]) error ↔
      First (·.2.WellFormed) (fun field => FirstError field.1 field.2 error) fields := by
  constructor
  · intro h
    cases h with
    | arity hLength => exact absurd rfl hLength
    | field hFront hShape => exact ⟨_, _, _, rfl, hFront, hShape⟩
  · rintro ⟨front, ⟨inner, shape⟩, back, rfl, hFront, hShape⟩
    exact .field hFront hShape

mutual

theorem exists_ofShape_iff (name : String) : (shape : Shape) →
    ((∃ form, Form.ofShape name shape = .ok form) ↔ shape.WellFormed)
  | .tag text => by
    constructor
    · rintro ⟨form, h⟩
      obtain ⟨tag, hTag, _⟩ := Form.ofShape_tag h
      exact .tag (isTag_iff.mpr ⟨tag, hTag⟩)
    · intro h
      cases h with
      | tag hText =>
        obtain ⟨tag, hTag⟩ := isTag_iff.mp hText
        exact ⟨.scalar tag, by rw [Form.ofShape, hTag]⟩
  | .union texts => by
    constructor
    · rintro ⟨form, h⟩
      obtain ⟨kinds, hKinds, _⟩ := Form.ofShape_union h
      refine .union ?_ (exists_unionMembers_iff.mp ⟨kinds, hKinds⟩)
      rintro rfl
      cases h
    · intro h
      cases h with
      | union hNonempty hTexts =>
        obtain ⟨text, rest, rfl⟩ := List.exists_cons_of_ne_nil hNonempty
        obtain ⟨kinds, hKinds⟩ := exists_unionMembers_iff.mpr hTexts
        exact ⟨.union kinds, by rw [Form.ofShape, hKinds]; rfl⟩
  | .nested [fields] => by
    have hFields := exists_ofShapes_iff fields
    constructor
    · rintro ⟨form, h⟩
      obtain ⟨_, forms, hOne, hForms, _⟩ := Form.ofShape_nested h
      cases hOne
      exact .nested (hFields.mp ⟨forms, hForms⟩)
    · intro h
      cases h with
      | nested hWellFormed =>
        obtain ⟨forms, hForms⟩ := hFields.mpr hWellFormed
        exact ⟨.nested forms, by rw [Form.ofShape, hForms]; rfl⟩
  | .nested [] => ⟨nofun, nofun⟩
  | .nested (_ :: _ :: _) => ⟨nofun, nofun⟩

theorem exists_ofShapes_iff : (fields : List (String × Shape)) →
    ((∃ forms, Form.ofShapes fields = .ok forms) ↔ ∀ field ∈ fields, field.2.WellFormed)
  | [] => ⟨fun _ => nofun, fun _ => ⟨[], rfl⟩⟩
  | (name, shape) :: rest => by
    rw [List.forall_mem_cons, ← exists_ofShape_iff name shape, ← exists_ofShapes_iff rest]
    constructor
    · rintro ⟨forms, h⟩
      obtain ⟨form, others, hForm, hOthers, _⟩ := Form.ofShapes_cons h
      exact ⟨⟨form, hForm⟩, ⟨others, hOthers⟩⟩
    · rintro ⟨⟨form, hForm⟩, ⟨others, hOthers⟩⟩
      exact ⟨(name, form) :: others, by rw [Form.ofShapes, hForm, hOthers]; rfl⟩

end

mutual

theorem ofShape_eq_error_iff (name : String) : (shape : Shape) →
    (Form.ofShape name shape = .error error ↔ FirstError name shape error)
  | .tag text => by
    rw [Form.ofShape]
    constructor
    · intro h
      split at h
      · cases h
      · rename_i hNone
        cases h
        exact .tag (parse?_eq_none_iff.mp hNone)
    · intro h
      cases h with
      | tag hText => rw [parse?_eq_none_iff.mpr hText]
  | .union [] => by
    constructor
    · intro h
      cases h
      exact .empty
    · intro h
      cases h with
      | empty => rfl
      | member hFirst => exact absurd hFirst not_first_nil
  | .union (text :: rest) => by
    rw [Form.ofShape, bind_pure_eq_error_iff, unionMembers_eq_error_iff]
    constructor
    · exact .member
    · intro h
      cases h with
      | member hFirst => exact hFirst
  | .nested [fields] => by
    rw [Form.ofShape, bind_pure_eq_error_iff, firstError_nested_iff, ofShapes_eq_error_iff fields]
  | .nested [] => by
    rw [ofShape_of_arity (by decide), firstError_of_arity (by decide), Except.error.injEq, eq_comm]
  | .nested (_ :: _ :: _) => by
    rw [ofShape_of_arity (by simp), firstError_of_arity (by simp), Except.error.injEq, eq_comm]

theorem ofShapes_eq_error_iff : (fields : List (String × Shape)) →
    (Form.ofShapes fields = .error error ↔
      First (·.2.WellFormed) (fun field => FirstError field.1 field.2 error) fields)
  | [] => ⟨nofun, fun h => absurd h not_first_nil⟩
  | (name, shape) :: rest => by
    rw [Form.ofShapes, bind_eq_error_iff, first_cons_iff, ofShape_eq_error_iff name shape,
      ← exists_ofShape_iff name shape, ← ofShapes_eq_error_iff rest]
    simp only [bind_pure_eq_error_iff, exists_and_right]

end

end Conversion

end Shape

namespace Literal

def WellFormed (literal : Literal) : Prop := ∀ field ∈ literal.fields, field.2.WellFormed

/-- The first field that is not well formed has this error. -/
def FirstError (literal : Literal) (error : LiteralError) : Prop :=
  First (·.2.WellFormed) (fun field => field.2.FirstError field.1 error) literal.fields

end Literal

namespace Schema

/-- A literal converts exactly if it is well formed, and it fails exactly with its first error. -/
theorem ofLiteral_outcome_iff (literal : Literal) :
    ((∃ schema, ofLiteral literal = .ok schema) ↔ literal.WellFormed) ∧
    ∀ error, ofLiteral literal = .error error ↔ literal.FirstError error := by
  constructor
  · rw [Literal.WellFormed, ← Shape.exists_ofShapes_iff]
    constructor
    · rintro ⟨schema, h⟩
      exact ⟨schema.fields, ofLiteral_eq_ok_iff.mp h⟩
    · rintro ⟨forms, hForms⟩
      cases h : ofLiteral literal with
      | ok schema => exact ⟨schema, rfl⟩
      | error error =>
        rw [ofLiteral_eq_error_iff, hForms] at h
        cases h
  · intro error
    rw [ofLiteral_eq_error_iff, Shape.ofShapes_eq_error_iff, Literal.FirstError]

-- The second member of the inner union is reported: not the third, and not the field after.
example : Form.ofShapes [("a", .nested [[("b", .union ["int", "null?", "nope"])]]),
    ("c", .union [])] = .error (.invalidUnionMember "null?") := rfl

end Schema

end Conform
