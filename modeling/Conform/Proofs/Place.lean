import Conform.Coerce.Engine
import Mathlib.Data.List.Nodup

/-! # Places

A place is a value of the input together with the part of the schema that governs it. Its parts stand in
document order, each under the token that leads to it, so a path leads from place to place through
the schema and the input at once.
-/

set_option autoImplicit false

namespace Conform

/-- The level is the number of records that are open around a record or a field. -/
inductive Place where
  | record (level : Nat) (fields : List (String × Form)) (value : Json)
  | field (level : Nat) (form : Form) (value : Json)
  | element (kind : Kind) (value : Json)
  /-- A declared field that its object lacks. -/
  | missing (form : Form)

namespace Place

def value? : Place → Option Json
  | .record _ _ value | .field _ _ value | .element _ value => some value
  | .missing _ => none

/-- The elements of a list under their indices. -/
def indexed (place : Json → Place) (index : Nat) (elements : List Json) : Entries Place :=
  (elements.zipIdx index).map fun element => (toString element.2, place element.1)

/-- A declared field of a record under its name. -/
def declared (level : Nat) (entries : Record) (field : String × Form) : String × Place :=
  (field.1, match entries.lookup field.1 with
    | some value => .field level field.2 value
    | none => .missing field.2)

/-- The parts of a place in document order: fields as they are declared, elements by their index. In
lenient mode the elements of a text are its pieces. -/
def parts (mode : Mode) : Place → Entries Place
  | .record level fields (.obj entries) => fields.map (declared (level + 1) entries)
  | .field level (.nested fields) (.arr items) => indexed (.record level fields) 0 items
  | .field _ (.scalar tag) value =>
    if tag.array then indexed (.element tag.kind) 0 ((value.elements? mode).getD []) else []
  | _ => []

/-- Where a path leads. -/
def at? (mode : Mode) : Place → Path → Option Place
  | place, [] => some place
  | place, token :: rest => ((place.parts mode).lookup token).bind fun part => part.at? mode rest

/-- The parts that come before the part under a token. -/
def before (mode : Mode) (place : Place) (token : String) : List Place :=
  ((place.parts mode).takeWhile (·.1 != token)).map Prod.snd

/-- No record declares a name twice. -/
def Distinct : Place → Prop
  | .record _ fields _ => (Form.nested fields).Distinct
  | .field _ form _ => form.Distinct
  | .element _ _ | .missing _ => True

end Place

theorem toString_injective : Function.Injective (toString : Nat → String) := by
  intro m n h
  have hDigits : Nat.toDigits 10 m = Nat.toDigits 10 n := String.ofList_injective h
  have hValues := congrArg (Nat.ofDigitChars 10 · 0) hDigits
  simpa [Nat.ofDigitChars_toDigits] using hValues

namespace Place

section Tokens

variable {mode : Mode} {place : Place}

@[simp] theorem indexed_cons (place : Json → Place) (index : Nat) (element : Json)
    (rest : List Json) : indexed place index (element :: rest) =
      (toString index, place element) :: indexed place (index + 1) rest := rfl

theorem names_indexed (place : Json → Place) (index : Nat) (elements : List Json) :
    Entries.names (indexed place index elements) =
      (List.range' index elements.length).map toString := by
  rw [← List.zipIdx_map_snd index elements, indexed, Entries.names, List.map_map, List.map_map]
  rfl

theorem nodup_indexed (place : Json → Place) (index : Nat) (elements : List Json) :
    (Entries.names (indexed place index elements)).Nodup := by
  rw [names_indexed]
  exact List.Nodup.map toString_injective List.nodup_range'

/-- No two parts of a place share a token. -/
theorem nodup_parts (h : place.Distinct) : (Entries.names (place.parts mode)).Nodup := by
  cases place with
  | record level fields value =>
    cases value with
    | obj entries =>
      rw [parts, Entries.names, List.map_map]
      exact h.1
    | null | bool _ | num _ | str _ | arr _ => exact List.nodup_nil
  | field level form value =>
    cases form with
    | scalar tag =>
      rw [parts]
      split
      · exact nodup_indexed _ _ _
      · exact List.nodup_nil
    | union kinds => exact List.nodup_nil
    | nested fields =>
      cases value with
      | arr items => exact nodup_indexed _ _ _
      | null | bool _ | num _ | str _ | obj _ => exact List.nodup_nil
  | element kind value => exact List.nodup_nil
  | missing form => exact List.nodup_nil

theorem mem_indexed {place : Json → Place} {index : Nat} {elements : List Json}
    {entry : String × Place} (h : entry ∈ indexed place index elements) :
    ∃ element ∈ elements, entry.2 = place element := by
  obtain ⟨⟨element, _⟩, hMem, rfl⟩ := List.mem_map.mp h
  exact ⟨element, List.fst_mem_of_mem_zipIdx hMem, rfl⟩

/-- Where a part comes from. -/
inductive PartOf (mode : Mode) : Place → String × Place → Prop
  | field {level : Nat} {fields : List (String × Form)} {entries : Record} {name : String}
      {form : Form} {value : Json} : (name, form) ∈ fields → entries.lookup name = some value →
      PartOf mode (.record level fields (.obj entries)) (name, .field (level + 1) form value)
  | missing {level : Nat} {fields : List (String × Form)} {entries : Record} {name : String}
      {form : Form} : (name, form) ∈ fields → entries.lookup name = none →
      PartOf mode (.record level fields (.obj entries)) (name, .missing form)
  | item {level : Nat} {fields : List (String × Form)} {items : List Json} {token : String}
      {item : Json} : item ∈ items →
      PartOf mode (.field level (.nested fields) (.arr items)) (token, .record level fields item)
  | element {level : Nat} {tag : Tag} {value element : Json} {elements : List Json}
      {token : String} : tag.array = true → value.elements? mode = some elements →
      element ∈ elements →
      PartOf mode (.field level (.scalar tag) value) (token, .element tag.kind element)

theorem partOf_of_mem {entry : String × Place} (h : entry ∈ place.parts mode) :
    PartOf mode place entry := by
  cases place with
  | record level fields value =>
    cases value with
    | obj entries =>
      obtain ⟨⟨name, form⟩, hField, rfl⟩ := List.mem_map.mp h
      cases hLookup : entries.lookup name with
      | some value =>
        simp only [declared, hLookup]
        exact .field hField hLookup
      | none =>
        simp only [declared, hLookup]
        exact .missing hField hLookup
    | null | bool _ | num _ | str _ | arr _ => cases h
  | field level form value =>
    cases form with
    | scalar tag =>
      rw [parts] at h
      split at h
      · rename_i hArray
        obtain ⟨token, part⟩ := entry
        obtain ⟨element, hElement, rfl⟩ := mem_indexed h
        cases hElements : value.elements? mode with
        | some elements =>
          rw [hElements] at hElement
          exact .element hArray hElements hElement
        | none =>
          rw [hElements] at hElement
          cases hElement
      · cases h
    | union kinds => cases h
    | nested fields =>
      cases value with
      | arr items =>
        obtain ⟨token, part⟩ := entry
        obtain ⟨item, hItem, rfl⟩ := mem_indexed h
        exact .item hItem
      | null | bool _ | num _ | str _ | obj _ => cases h
  | element kind value => cases h
  | missing form => cases h

theorem distinct_of_mem_parts (h : place.Distinct) {entry : String × Place}
    (hMem : entry ∈ place.parts mode) : entry.2.Distinct := by
  cases partOf_of_mem hMem with
  | field hField _ => exact Form.distinctAll_iff.mp h.2 _ hField
  | missing _ _ => trivial
  | item _ => exact h
  | element _ _ _ => trivial

theorem distinct_of_parts (h : place.Distinct) {front back : Entries Place} {token : String}
    {part : Place} (hParts : place.parts mode = front ++ (token, part) :: back) :
    (∀ entry ∈ front, entry.2.Distinct) ∧ part.Distinct := by
  have hAll : ∀ entry ∈ place.parts mode, entry.2.Distinct :=
    fun _ hMem => distinct_of_mem_parts h hMem
  rw [hParts, List.forall_mem_append, List.forall_mem_cons] at hAll
  exact ⟨hAll.1, hAll.2.1⟩

theorem lookup_parts (h : place.Distinct) {front back : Entries Place} {token : String}
    {part : Place} (hParts : place.parts mode = front ++ (token, part) :: back) :
    (place.parts mode).lookup token = some part ∧
      place.before mode token = front.map Prod.snd := by
  have hNodup : (Entries.names (place.parts mode)).Nodup := nodup_parts h
  rw [hParts, Entries.names, List.map_append, List.map_cons, List.nodup_middle,
    List.nodup_cons, List.mem_append, not_or] at hNodup
  have hFront : ∀ entry ∈ front, (entry.1 != token) = true := by
    intro entry hEntry
    rw [bne_iff_ne]
    rintro rfl
    exact hNodup.1.1 (Entries.mem_names_of_mem hEntry)
  constructor
  · refine List.lookup_eq_some_iff.mpr ⟨front, back, hParts, ?_⟩
    intro entry hEntry
    rw [bne_comm]
    exact hFront entry hEntry
  · rw [before, hParts, List.takeWhile_append_of_pos hFront, List.takeWhile_cons_of_neg (by simp),
      List.append_nil]

theorem mem_parts_of_lookup {token : String} {part : Place}
    (h : (place.parts mode).lookup token = some part) : (token, part) ∈ place.parts mode := by
  obtain ⟨front, back, hParts, _⟩ := List.lookup_eq_some_iff.mp h
  rw [hParts]
  exact List.mem_append_right front List.mem_cons_self

theorem at?_cons {token : String} {path : Path} {found : Place} :
    place.at? mode (token :: path) = some found ↔ ∃ part,
      (place.parts mode).lookup token = some part ∧ part.at? mode path = some found := by
  rw [at?, Option.bind_eq_some_iff]

/-- A missing field is found in an object that lacks it. -/
theorem at?_missing {form : Form} {path : Path}
    (h : place.at? mode path = some (.missing form)) :
    path = [] ∧ place = .missing form ∨ ∃ front name level fields entries, path = front ++ [name] ∧
      place.at? mode front = some (.record level fields (.obj entries)) ∧ (name, form) ∈ fields ∧
        entries.lookup name = none := by
  induction path generalizing place with
  | nil => exact Or.inl ⟨rfl, Option.some.inj h⟩
  | cons token rest ih =>
    obtain ⟨part, hPart, hFound⟩ := at?_cons.mp h
    right
    rcases ih hFound with
      ⟨rfl, rfl⟩ | ⟨front, name, level, fields, entries, rfl, hFront, hField, hLookup⟩
    · cases partOf_of_mem (mem_parts_of_lookup hPart) with
      | missing hField hLookup => exact ⟨[], token, _, _, _, rfl, rfl, hField, hLookup⟩
    · exact ⟨token :: front, name, level, fields, entries, rfl,
        at?_cons.mpr ⟨part, hPart, hFront⟩, hField, hLookup⟩

end Tokens

end Place

/-- The place of a whole input. -/
def Schema.root (schema : Schema) (input : Json) : Place := .record 0 schema.fields input

theorem Schema.distinct_root (schema : Schema) (input : Json) : (schema.root input).Distinct :=
  schema.distinct

end Conform
