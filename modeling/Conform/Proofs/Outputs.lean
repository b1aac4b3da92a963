import Conform.Proofs.Conformance
import Conform.Proofs.Depth

/-! # Outputs place by place

A path leads through an accepted record as it leads through the schema and the input. Fields keep their
names, and a list keeps one output for each element or piece, so what stands at a path of the record was
read from what stands at this path of the input.
-/

set_option autoImplicit false

namespace Conform

namespace Json

/-- Elements under their indices. -/
def indexed (index : Nat) (elements : List Json) : Entries Json :=
  (elements.zipIdx index).map fun element => (toString element.2, element.1)

def parts : Json → Entries Json
  | .obj entries => entries
  | .arr elements => indexed 0 elements
  | _ => []

/-- Where a path leads. -/
def at? : Json → Path → Option Json
  | value, [] => some value
  | value, token :: rest => (value.parts.lookup token).bind fun part => part.at? rest

@[simp] theorem indexed_cons (index : Nat) (element : Json) (rest : List Json) :
    indexed index (element :: rest) = (toString index, element) :: indexed (index + 1) rest := rfl

end Json

namespace Place

/-- What a place comes to in a record. Nothing stands there for a missing field. -/
inductive Gives (mode : Mode) : Place → Json → Prop
  | record {level : Nat} {fields : List (String × Form)} {entries out : Record} :
      Form.FitsFields mode fields entries out → Gives mode (.record level fields (.obj entries)) (.obj out)
  | field {level : Nat} {form : Form} {value out : Json} : form.Fits mode value out →
      Gives mode (.field level form value) out
  | element {kind : Kind} {value out : Json} : kind.Fits mode value out →
      Gives mode (.element kind value) out

section Paths

variable {mode : Mode} {place part found : Place} {token : String} {path : Path} {out : Json}

theorem lookup_indexed {R : Json → Json → Prop} {elements outs : List Json}
    (h : List.Forall₂ R elements outs) {index : Nat} {make : Json → Place}
    (hPart : (indexed make index elements).lookup token = some part) :
    ∃ element leaf, part = make element ∧ (Json.indexed index outs).lookup token = some leaf ∧
      R element leaf := by
  induction h generalizing index with
  | nil => cases hPart
  | cons hHead _ ih =>
    rw [indexed_cons, List.lookup_cons] at hPart
    rw [Json.indexed_cons, List.lookup_cons]
    split at hPart
    · cases hPart
      exact ⟨_, _, rfl, rfl, hHead⟩
    · exact ih hPart

theorem lookup_declared {fields : List (String × Form)} {entries outs : Record} {level : Nat}
    (h : Form.FitsFields mode fields entries outs)
    (hPart : (fields.map (declared level entries)).lookup token = some part)
    (hThere : part.value?.isSome) :
    ∃ leaf, outs.lookup token = some leaf ∧ part.Gives mode leaf := by
  induction fields generalizing outs with
  | nil => cases hPart
  | cons field rest ih =>
    obtain ⟨name, form⟩ := field
    rw [List.map_cons, declared, List.lookup_cons] at hPart
    cases hName : token == name with
    | true =>
      simp only [hName] at hPart
      cases h with
      | present hValue hFits _ =>
        simp only [hValue, Option.some.injEq] at hPart
        subst hPart
        exact ⟨_, by rw [List.lookup_cons, hName], .field hFits⟩
      | absent hNone _ _ =>
        simp only [hNone, Option.some.injEq] at hPart
        subst hPart
        cases hThere
    | false =>
      simp only [hName] at hPart
      cases h with
      | present _ _ hRest =>
        obtain ⟨leaf, hLeaf, hGives⟩ := ih hRest hPart
        exact ⟨leaf, by rw [List.lookup_cons, hName, hLeaf], hGives⟩
      | absent _ _ hRest => exact ih hRest hPart

/-- What a place comes to has the parts that the parts of the place come to. -/
theorem Gives.exists_part (h : place.Gives mode out)
    (hPart : (place.parts mode).lookup token = some part) (hThere : part.value?.isSome) :
    ∃ leaf, out.parts.lookup token = some leaf ∧ part.Gives mode leaf := by
  cases h with
  | record hFields => exact lookup_declared hFields hPart hThere
  | element _ => cases hPart
  | @field level form value _ hFits =>
    cases form with
    | scalar tag =>
      rw [parts] at hPart
      split at hPart
      · rename_i hArray
        obtain ⟨elements, outs, hElements, rfl, hOuts⟩ := (Form.fits_list_iff hArray).mp hFits
        rw [hElements] at hPart
        obtain ⟨_, leaf, rfl, hLeaf, hRead⟩ := lookup_indexed hOuts hPart
        exact ⟨leaf, hLeaf, .element hRead⟩
      · cases hPart
    | union kinds => cases hPart
    | nested fields =>
      cases hFits with
      | nested hItems =>
        obtain ⟨_, leaf, rfl, hLeaf, entries, record, rfl, rfl, hFields⟩ :=
          lookup_indexed (Form.fitsItems_iff.mp hItems) hPart
        exact ⟨_, hLeaf, .record hFields⟩

theorem at?_of_missing {form : Form} (h : (missing form).at? mode path = some found) :
    found = .missing form := by
  cases path with
  | nil => exact (Option.some.inj h).symm
  | cons token rest => cases h

theorem Gives.at? (h : place.Gives mode out) (hFound : place.at? mode path = some found)
    (hThere : found.value?.isSome) : ∃ leaf, out.at? path = some leaf ∧ found.Gives mode leaf := by
  induction path generalizing place out with
  | nil =>
    cases hFound
    exact ⟨out, rfl, h⟩
  | cons token rest ih =>
    obtain ⟨part, hPart, hRest⟩ := at?_cons.mp hFound
    have hPartThere : part.value?.isSome := by
      cases part with
      | missing form =>
        rw [at?_of_missing hRest] at hThere
        exact hThere
      | record | field | element => rfl
    obtain ⟨next, hNext, hGives⟩ := h.exists_part hPart hPartThere
    obtain ⟨leaf, hLeaf, hFoundGives⟩ := ih hGives hRest
    refine ⟨leaf, ?_, hFoundGives⟩
    rw [Json.at?, hNext]
    exact hLeaf

end Paths

end Place

namespace Schema

variable {schema : Schema} {input : Json} {options : Options} {record : Record}

theorem fits_of_accepted (h : schema.coerce input options = .accepted record) :
    schema.Fits options.mode input record := by
  obtain ⟨mode, limit⟩ := options
  have hUnlimited : schema.coerce input { mode, maxDepth := 0 } = .accepted record := by
    rcases coerce_limited schema input mode (wider_zero limit) with hCut | hSame
    · rw [hCut] at h
      cases h
    · rw [← hSame, h]
  rw [coerce_eq_accepted_iff, walk, Walk.record_eq_ok_iff] at hUnlimited
  obtain ⟨_, entries, hInput, hFields⟩ := hUnlimited
  exact ⟨entries, hInput, (Form.walk_fieldsOf_eq_ok_iff mode _ _ _ _).mp hFields⟩

/-- Every place of an accepted input is found again in the record. -/
theorem gives_at? (h : schema.coerce input options = .accepted record) {path : Path} {found : Place}
    (hFound : (schema.root input).at? options.mode path = some found)
    (hThere : found.value?.isSome) :
    ∃ leaf, (Json.obj record).at? path = some leaf ∧ found.Gives options.mode leaf := by
  obtain ⟨entries, rfl, hFields⟩ := fits_of_accepted h
  exact Place.Gives.at? (.record hFields) hFound hThere

end Schema

end Conform
