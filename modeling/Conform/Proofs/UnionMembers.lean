import Conform.Proofs.Cursor

/-! # The members of unions

Schemas that differ in the kinds of their unions alone run alike if each union reads like its
counterpart. In strict mode every kind leaves a value as it is, and mixed makes a fault of exactly what
no other kind reads, so a union is the set of its kinds. In lenient mode the first kind that reads a
value decides what comes of it, and the order counts.
-/

set_option autoImplicit false

namespace Conform

namespace Form

mutual

/-- The same form, but for the kinds of its unions, which are related one by one at any depth. -/
inductive Unionwise (R : List Kind → List Kind → Prop) : Form → Form → Prop
  | scalar (tag : Tag) : Unionwise R (.scalar tag) (.scalar tag)
  | union {kinds others : List Kind} : R kinds others → Unionwise R (.union kinds) (.union others)
  | nested {xs ys : List (String × Form)} : UnionwiseFields R xs ys →
      Unionwise R (.nested xs) (.nested ys)

inductive UnionwiseFields (R : List Kind → List Kind → Prop) :
    List (String × Form) → List (String × Form) → Prop
  | nil : UnionwiseFields R [] []
  | cons {name : String} {f g : Form} {xs ys : List (String × Form)} : Unionwise R f g →
      UnionwiseFields R xs ys → UnionwiseFields R ((name, f) :: xs) ((name, g) :: ys)

end

theorem Unionwise.isOptional_eq {R : List Kind → List Kind → Prop} {f g : Form}
    (h : f.Unionwise R g) : f.isOptional = g.isOptional := by
  cases h <;> rfl

end Form

namespace Walk

section Unionwise

variable {R : List Kind → List Kind → Prop} {options : Options}

/-- Lists of kinds that are related read every value alike. -/
def ReadsAlike (mode : Mode) (R : List Kind → List Kind → Prop) : Prop :=
  ∀ kinds others, R kinds others → ∀ value, read mode kinds value = read mode others value

mutual

theorem form_eq_of_unionwise (hRead : ReadsAlike options.mode R) {f g : Form} : f.Unionwise R g →
    ∀ level value, form options f level value = form options g level value
  | .scalar _, _, _ => rfl
  | .union hKinds, level, value => by rw [form, form, hRead _ _ hKinds]
  | .nested hFields, level, value => by
    rw [form, form, funext (fieldsOf_eq_of_unionwise hRead hFields (level + 1))]

theorem fieldsOf_eq_of_unionwise (hRead : ReadsAlike options.mode R)
    {xs ys : List (String × Form)} : Form.UnionwiseFields R xs ys →
    ∀ level entries, fieldsOf options xs level entries = fieldsOf options ys level entries
  | .nil, _, _ => rfl
  | .cons hForm hRest, level, entries => by
    rw [fieldsOf, fieldsOf, fieldsOf_eq_of_unionwise hRead hRest level entries,
      hForm.isOptional_eq]
    simp only [form_eq_of_unionwise hRead hForm level]

end

end Unionwise

end Walk

namespace Schema

def Unionwise (R : List Kind → List Kind → Prop) (first second : Schema) : Prop :=
  Form.UnionwiseFields R first.fields second.fields

theorem coerce_eq_of_unionwise {R : List Kind → List Kind → Prop} {options : Options}
    (hRead : Walk.ReadsAlike options.mode R) {first second : Schema}
    (h : first.Unionwise R second) (input : Json) :
    first.coerce input options = second.coerce input options := by
  rw [coerce_eq_outcome, coerce_eq_outcome, walk, walk,
    funext (Walk.fieldsOf_eq_of_unionwise hRead h 1)]

end Schema

namespace Kind

/-- The lists hold the same kinds, in any order and any number. -/
def SameMembers (kinds others : List Kind) : Prop := ∀ kind, kind ∈ kinds ↔ kind ∈ others

variable {kinds others : List Kind} {value out : Json}

theorem fitsFirst_strict_iff : FitsFirst .strict value kinds out ↔
    value = out ∧ ∃ kind ∈ kinds, kind.Fits .strict value value := by
  constructor
  · intro h
    obtain rfl := h.eq_of_strict
    exact ⟨rfl, h.exists_fits⟩
  · rintro ⟨rfl, kind, hMem, hFits⟩
    obtain ⟨out, hOut⟩ := exists_fitsFirst ⟨kind, hMem, value, hFits⟩
    obtain rfl := hOut.eq_of_strict
    exact hOut

theorem SameMembers.read_strict_eq (h : SameMembers kinds others) (value : Json) :
    Walk.read .strict kinds value = Walk.read .strict others value := by
  have hFirst : readFirst? .strict value kinds = readFirst? .strict value others := by
    apply Option.ext
    intro out
    rw [readFirst?_eq_some_iff, readFirst?_eq_some_iff, fitsFirst_strict_iff, fitsFirst_strict_iff]
    simp only [h _]
  have hRefusal : refusal kinds = refusal others := by
    rw [refusal, refusal]
    simp only [h .mixed]
  rw [Walk.read, Walk.read, hFirst, hRefusal]

end Kind

namespace Schema

/-- In strict mode the order and the repetition of the kinds in unions, at any depth, make no difference to
an outcome: not to the record, nor to the path of a rejection, nor to a fault. -/
theorem strict_coerce_of_sameMembers (first second : Schema)
    (h : first.Unionwise Kind.SameMembers second) (input : Json) (maxDepth : Nat) :
    first.coerce input { mode := .strict, maxDepth := maxDepth } =
      second.coerce input { mode := .strict, maxDepth := maxDepth } :=
  coerce_eq_of_unionwise (fun _ _ hMembers => hMembers.read_strict_eq) h input

def numberFirstSchema : Schema :=
  .ofFields [("rows", .nested [("key", .union [.int, .boolean, .int]),
    ("note", .union [.mixed, .string])])]

def booleanFirstSchema : Schema :=
  .ofFields [("rows", .nested [("key", .union [.boolean, .int]),
    ("note", .union [.string, .mixed, .string])])]

-- Both orders fault at the same note. The lenient runs show what the order decides: one key becomes a
-- number under the first schema and a boolean under the second.
theorem strict_coerce_of_sameMembers_rows :
    numberFirstSchema.Unionwise Kind.SameMembers booleanFirstSchema ∧
    numberFirstSchema.coerce (.obj [("rows", .arr [.obj [("key", .bool true), ("note", .obj [])]])])
      { mode := .strict, maxDepth := 2 } = .faulted (.notScalar ["rows", "0", "note"]) ∧
    booleanFirstSchema.coerce (.obj [("rows", .arr [.obj [("key", .bool true), ("note", .obj [])]])])
      { mode := .strict, maxDepth := 2 } = .faulted (.notScalar ["rows", "0", "note"]) ∧
    numberFirstSchema.coerce (.obj [("rows", .arr [.obj [("key", .str "1"), ("note", .str "")]])])
        { mode := .lenient, maxDepth := 2 } ≠
      booleanFirstSchema.coerce (.obj [("rows", .arr [.obj [("key", .str "1"), ("note", .str "")]])])
        { mode := .lenient, maxDepth := 2 } := by
  have h : numberFirstSchema.Unionwise Kind.SameMembers booleanFirstSchema := by
    refine .cons (.nested (.cons (.union ?_) (.cons (.union ?_) .nil))) .nil <;>
      intro kind <;> cases kind <;> decide
  have hFault : numberFirstSchema.coerce
      (.obj [("rows", .arr [.obj [("key", .bool true), ("note", .obj [])]])])
      { mode := .strict, maxDepth := 2 } = .faulted (.notScalar ["rows", "0", "note"]) := by
    decide +kernel
  exact ⟨h, hFault, (strict_coerce_of_sameMembers _ _ h _ 2).symm.trans hFault, by decide +kernel⟩

end Schema

end Conform
