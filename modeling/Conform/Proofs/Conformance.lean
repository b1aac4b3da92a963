import Conform.Proofs.Cursor
import Conform.Proofs.Pieces

/-! # Conformance

The documented rules as a relation between a form, a value and what comes out of it. Without a limit on
the depth a schema accepts exactly the inputs that fit it, with exactly the record that they fit to.
-/

set_option autoImplicit false

namespace Conform

namespace Form

mutual

inductive Fits (mode : Mode) : Form → Json → Json → Prop
  | scalar {tag : Tag} {value out : Json} : tag.array = false → tag.kind.Fits mode value out →
      Fits mode (.scalar tag) value out
  | list {tag : Tag} {elements outs : List Json} : tag.array = true →
      List.Forall₂ (tag.kind.Fits mode · ·) elements outs →
      Fits mode (.scalar tag) (.arr elements) (.arr outs)
  | text {tag : Tag} {text : String} {parts : List (List Char)} {outs : List Json} :
      tag.array = true → mode = .lenient → text ≠ "" → Text.Splits ',' text.toList parts →
      List.Forall₂ (fun part out => tag.kind.Fits mode (.str (String.ofList part)) out) parts outs →
      Fits mode (.scalar tag) (.str text) (.arr outs)
  | union {kinds : List Kind} {value out : Json} : value.isArray = false →
      Kind.FitsFirst mode value kinds out → Fits mode (.union kinds) value out
  | nested {fields : List (String × Form)} {items outs : List Json} :
      FitsItems mode fields items outs → Fits mode (.nested fields) (.arr items) (.arr outs)

inductive FitsItems (mode : Mode) : List (String × Form) → List Json → List Json → Prop
  | nil {fields : List (String × Form)} : FitsItems mode fields [] []
  | cons {fields : List (String × Form)} {entries out : Record} {items outs : List Json} :
      FitsFields mode fields entries out → FitsItems mode fields items outs →
      FitsItems mode fields (.obj entries :: items) (.obj out :: outs)

inductive FitsFields (mode : Mode) : List (String × Form) → Record → Record → Prop
  | nil {entries : Record} : FitsFields mode [] entries []
  | present {name : String} {form : Form} {rest : List (String × Form)} {entries outs : Record}
      {value out : Json} : entries.lookup name = some value → Fits mode form value out →
      FitsFields mode rest entries outs →
      FitsFields mode ((name, form) :: rest) entries ((name, out) :: outs)
  | absent {name : String} {form : Form} {rest : List (String × Form)} {entries outs : Record} :
      entries.lookup name = none → form.isOptional = true → FitsFields mode rest entries outs →
      FitsFields mode ((name, form) :: rest) entries outs

end

theorem fitsItems_iff {mode : Mode} {fields : List (String × Form)} {items outs : List Json} :
    FitsItems mode fields items outs ↔ List.Forall₂ (fun item out => ∃ entries record,
      item = .obj entries ∧ out = .obj record ∧ FitsFields mode fields entries record) items outs := by
  constructor
  · intro h
    induction items generalizing outs with
    | nil =>
      cases h
      exact .nil
    | cons item rest ih =>
      cases h with
      | cons hHead hTail => exact .cons ⟨_, _, rfl, rfl, hHead⟩ (ih hTail)
  · intro h
    induction h with
    | nil => exact .nil
    | cons hHead _ ih =>
      obtain ⟨entries, record, rfl, rfl, hFields⟩ := hHead
      exact .cons hFields ih

theorem Fits.kind_fits {mode : Mode} {tag : Tag} {value out : Json}
    (h : Fits mode (.scalar tag) value out) (hArray : tag.array = false) :
    tag.kind.Fits mode value out := by
  cases h with
  | scalar _ hFits => exact hFits
  | list hList _ | text hList _ _ _ _ => exact absurd hArray (by simp [hList])

theorem fits_list_iff {mode : Mode} {tag : Tag} {value out : Json} (hArray : tag.array = true) :
    Fits mode (.scalar tag) value out ↔ ∃ elements outs, value.elements? mode = some elements ∧
      out = .arr outs ∧ List.Forall₂ (tag.kind.Fits mode · ·) elements outs := by
  constructor
  · intro h
    cases h with
    | scalar hScalar _ => exact absurd hArray (by simp [hScalar])
    | list _ hOuts => exact ⟨_, _, rfl, rfl, hOuts⟩
    | text _ hMode hText hParts hOuts =>
      rw [Text.splits_iff.mp hParts] at hOuts
      refine ⟨_, _, by rw [Json.elements?, if_pos ⟨hMode, hText⟩], rfl, ?_⟩
      exact List.forall₂_map_left_iff.mpr hOuts
  · rintro ⟨elements, outs, hElements, rfl, hOuts⟩
    cases value with
    | arr _ =>
      cases hElements
      exact .list hArray hOuts
    | str text =>
      rw [Json.elements?] at hElements
      split at hElements
      · rename_i h
        cases hElements
        exact .text hArray h.1 h.2 (Text.splits_pieces _ _) (List.forall₂_map_left_iff.mp hOuts)
      · cases hElements
    | null | bool _ | num _ | obj _ => cases hElements

mutual

theorem walk_form_eq_ok_iff (mode : Mode) : (f : Form) → (level : Nat) → (value out : Json) →
    (Walk.form { mode := mode, maxDepth := 0 } f level value = .ok out ↔ Fits mode f value out)
  | .scalar tag, level, value, out => by
    cases hArray : tag.array with
    | true =>
      rw [Walk.form_list_eq_ok_iff hArray, fits_list_iff hArray]
      simp only [Kind.fitsFirst_singleton_iff]
    | false =>
      rw [Walk.form_tag_eq_ok_iff hArray, Kind.fitsFirst_singleton_iff]
      exact ⟨.scalar hArray, fun h => h.kind_fits hArray⟩
  | .union kinds, level, value, out => by
    rw [Walk.form_union_eq_ok_iff]
    constructor
    · exact fun h => .union h.1 h.2
    · intro h
      cases h with
      | union hValue hFits => exact ⟨hValue, hFits⟩
  | .nested fields, level, value, out => by
    rw [Walk.form_nested_eq_ok_iff]
    have hItems : ∀ items outs, FitsItems mode fields items outs ↔
        List.Forall₂ (fun item out => ∃ record, Walk.record { mode := mode, maxDepth := 0 } (level + 1)
          (Walk.fieldsOf { mode := mode, maxDepth := 0 } fields (level + 1)) item = .ok record ∧
            out = .obj record) items outs := by
      intro items outs
      rw [fitsItems_iff]
      simp only [Walk.record_eq_ok_iff, walk_fieldsOf_eq_ok_iff mode fields (level + 1)]
      constructor
      · refine List.Forall₂.imp ?_
        rintro item out ⟨entries, record, hItem, hOut, hFields⟩
        exact ⟨record, ⟨by simp, entries, hItem, hFields⟩, hOut⟩
      · refine List.Forall₂.imp ?_
        rintro item out ⟨record, ⟨_, entries, hItem, hFields⟩, hOut⟩
        exact ⟨entries, record, hItem, hOut, hFields⟩
    constructor
    · rintro ⟨items, outs, rfl, rfl, hOuts⟩
      exact .nested ((hItems items outs).mpr hOuts)
    · intro h
      cases h with
      | nested hOuts => exact ⟨_, _, rfl, rfl, (hItems _ _).mp hOuts⟩

theorem walk_fieldsOf_eq_ok_iff (mode : Mode) : (fields : List (String × Form)) → (level : Nat) →
    (entries outs : Record) →
    (Walk.fieldsOf { mode := mode, maxDepth := 0 } fields level entries = .ok outs ↔
      FitsFields mode fields entries outs)
  | [], level, entries, outs => by
    rw [Walk.fieldsOf]
    constructor
    · intro h
      cases h
      exact .nil
    · intro h
      cases h
      rfl
  | (name, f) :: rest, level, entries, outs => by
    rw [Walk.fieldsOf_cons_eq_ok_iff]
    constructor
    · rintro (⟨value, out, tail, hValue, hOut, hTail, rfl⟩ | ⟨hNone, hOptional, hOuts⟩)
      · exact .present hValue ((walk_form_eq_ok_iff mode f level value out).mp hOut)
          ((walk_fieldsOf_eq_ok_iff mode rest level entries tail).mp hTail)
      · exact .absent hNone hOptional ((walk_fieldsOf_eq_ok_iff mode rest level entries outs).mp hOuts)
    · intro h
      cases h with
      | present hValue hOut hTail =>
        exact Or.inl ⟨_, _, _, hValue, (walk_form_eq_ok_iff mode f level _ _).mpr hOut,
          (walk_fieldsOf_eq_ok_iff mode rest level entries _).mpr hTail, rfl⟩
      | absent hNone hOptional hOuts =>
        exact Or.inr ⟨hNone, hOptional,
          (walk_fieldsOf_eq_ok_iff mode rest level entries outs).mpr hOuts⟩

end

section Keys

variable {mode : Mode} {fields : List (String × Form)} {entries out : Record}

theorem FitsFields.names_eq (h : FitsFields mode fields entries out) :
    Entries.names out = (Entries.names fields).filter (· ∈ Entries.names entries) := by
  induction fields generalizing out with
  | nil =>
    cases h
    rfl
  | cons field rest ih =>
    cases h with
    | present hValue _ hTail =>
      have hMem := Entries.mem_names_of_lookup hValue
      rw [Entries.names_cons, Entries.names_cons, List.filter_cons_of_pos (by simpa using hMem),
        ih hTail]
    | absent hNone _ hTail =>
      have hAbsent := Entries.lookup_eq_none_iff.mp hNone
      rw [Entries.names_cons, List.filter_cons_of_neg (by simpa using hAbsent), ih hTail]

theorem FitsFields.absent_of_missing (h : FitsFields mode fields entries out) {name : String}
    {f : Form} (hField : (name, f) ∈ fields) (hMissing : name ∉ Entries.names out) :
    name ∉ Entries.names entries ∧ f.isOptional = true := by
  induction fields generalizing out with
  | nil => cases hField
  | cons field rest ih =>
    cases h with
    | present _ _ hTail =>
      rw [Entries.names_cons, List.mem_cons, not_or] at hMissing
      rcases List.mem_cons.mp hField with hHead | hRest
      · exact absurd (congrArg Prod.fst hHead) hMissing.1
      · exact ih hTail hRest hMissing.2
    | absent hNone hOptional hTail =>
      rcases List.mem_cons.mp hField with hHead | hRest
      · cases hHead
        exact ⟨Entries.lookup_eq_none_iff.mp hNone, hOptional⟩
      · exact ih hTail hRest hMissing

/-- As no name is declared twice, an output stands under the form that it fits. -/
theorem FitsFields.fits_of_lookup (h : FitsFields mode fields entries out)
    (hNodup : (Entries.names fields).Nodup) {name : String} {f : Form} (hField : (name, f) ∈ fields)
    {value : Json} (hOut : out.lookup name = some value) :
    ∃ source, entries.lookup name = some source ∧ Fits mode f source value := by
  induction fields generalizing out with
  | nil => cases hField
  | cons field rest ih =>
    obtain ⟨hFresh, hRestNodup⟩ := List.nodup_cons.mp hNodup
    have hRestMem : ∀ {g : Form}, (name, g) ∈ rest → name ∈ Entries.names rest :=
      Entries.mem_names_of_mem
    cases h with
    | present hSource hFits hTail =>
      rw [List.lookup_cons] at hOut
      split at hOut
      · rename_i hName
        obtain rfl := beq_iff_eq.mp hName
        rcases List.mem_cons.mp hField with hHead | hRest
        · cases hHead
          cases hOut
          exact ⟨_, hSource, hFits⟩
        · exact absurd (hRestMem hRest) hFresh
      · rename_i hName
        rcases List.mem_cons.mp hField with hHead | hRest
        · cases hHead
          simp at hName
        · exact ih hTail hRestNodup hRest hOut
    | absent _ _ hTail =>
      rcases List.mem_cons.mp hField with hHead | hRest
      · cases hHead
        have hMem := Entries.mem_names_of_lookup hOut
        rw [hTail.names_eq] at hMem
        exact absurd (List.mem_filter.mp hMem).1 hFresh
      · exact ih hTail hRestNodup hRest hOut

theorem FitsFields.fits_of_lookups (h : FitsFields mode fields entries out)
    (hNodup : (Entries.names fields).Nodup) (name : String) (f : Form)
    (hField : (name, f) ∈ fields) (source value : Json) (hSource : entries.lookup name = some source)
    (hValue : out.lookup name = some value) : Fits mode f source value := by
  obtain ⟨other, hOther, hFits⟩ := h.fits_of_lookup hNodup hField hValue
  rw [hSource] at hOther
  cases hOther
  exact hFits

end Keys

/-- The keys are the declared names that the object has, in their declared order. A declared name
without a key was absent and optional. -/
def KeysOf (fields : List (String × Form)) (entries record : Record) : Prop :=
  Entries.names record = (Entries.names fields).filter (· ∈ Entries.names entries) ∧
  ∀ name f, (name, f) ∈ fields → name ∉ Entries.names record →
    name ∉ Entries.names entries ∧ f.isOptional = true

mutual

/-- The keys of every record within a value. -/
def KeysBelow : Form → Json → Json → Prop
  | .nested fields, value, out => ∃ items outs, value = .arr items ∧ out = .arr outs ∧
      List.Forall₂ (fun item out => ∃ entries record, item = .obj entries ∧ out = .obj record ∧
        KeysOf fields entries record ∧ KeysBelowFields fields entries record) items outs
  | _, _, _ => True

def KeysBelowFields : List (String × Form) → Record → Record → Prop
  | [], _, _ => True
  | (name, f) :: rest, entries, record =>
    (∀ value out, entries.lookup name = some value → record.lookup name = some out →
      KeysBelow f value out) ∧ KeysBelowFields rest entries record

end

theorem FitsFields.keysOf {mode : Mode} {fields : List (String × Form)} {entries record : Record}
    (h : FitsFields mode fields entries record) : KeysOf fields entries record :=
  ⟨h.names_eq, fun _ _ hField hMissing => h.absent_of_missing hField hMissing⟩

mutual

theorem keysBelow_of_fits (mode : Mode) : (f : Form) → f.Distinct → (value out : Json) →
    Fits mode f value out → KeysBelow f value out
  | .scalar tag, _, value, out, _ => by
    unfold KeysBelow
    trivial
  | .union kinds, _, value, out, _ => by
    unfold KeysBelow
    trivial
  | .nested fields, hDistinct, value, out, h => by
    cases h with
    | nested hItems =>
      unfold KeysBelow
      refine ⟨_, _, rfl, rfl, (fitsItems_iff.mp hItems).imp ?_⟩
      rintro item out ⟨entries, record, hItem, hOut, hFields⟩
      exact ⟨entries, record, hItem, hOut, hFields.keysOf,
        keysBelowFields_of_fits mode fields hDistinct.2 entries record
          (hFields.fits_of_lookups hDistinct.1)⟩

theorem keysBelowFields_of_fits (mode : Mode) : (fields : List (String × Form)) →
    DistinctAll fields → (entries record : Record) →
    (∀ name f, (name, f) ∈ fields → ∀ value out, entries.lookup name = some value →
      record.lookup name = some out → Fits mode f value out) →
    KeysBelowFields fields entries record
  | [], _, _, _, _ => by
    unfold KeysBelowFields
    trivial
  | (name, f) :: rest, hDistinct, entries, record, h => by
    unfold KeysBelowFields
    constructor
    · intro value out hValue hOut
      exact keysBelow_of_fits mode f hDistinct.1 value out
        (h name f List.mem_cons_self value out hValue hOut)
    · apply keysBelowFields_of_fits mode rest hDistinct.2 entries record
      intro other g hField
      exact h other g (List.mem_cons_of_mem _ hField)

end

end Form

namespace Schema

/-- The input is an object whose fields fit in their order. -/
def Fits (schema : Schema) (mode : Mode) (input : Json) (record : Record) : Prop :=
  ∃ entries, input = .obj entries ∧ Form.FitsFields mode schema.fields entries record

def KeysKept (schema : Schema) (input : Json) (record : Record) : Prop :=
  ∃ entries, input = .obj entries ∧ Form.KeysOf schema.fields entries record ∧
    Form.KeysBelowFields schema.fields entries record

theorem Fits.keysKept {schema : Schema} {mode : Mode} {input : Json} {record : Record}
    (h : schema.Fits mode input record) : schema.KeysKept input record := by
  obtain ⟨entries, hInput, hFields⟩ := h
  exact ⟨entries, hInput, hFields.keysOf, Form.keysBelowFields_of_fits mode schema.fields
    schema.distinct.2 entries record (hFields.fits_of_lookups schema.distinct.1)⟩

theorem coerce_eq_accepted_iff_fits (schema : Schema) (mode : Mode) (input : Json)
    (record : Record) :
    (schema.coerce input { mode := mode, maxDepth := 0 } = .accepted record ↔
      schema.Fits mode input record) ∧
    (schema.coerce input { mode := mode, maxDepth := 0 } = .accepted record →
      schema.KeysKept input record) := by
  have hIff : schema.coerce input { mode := mode, maxDepth := 0 } = .accepted record ↔
      schema.Fits mode input record := by
    rw [coerce_eq_accepted_iff, walk, Walk.record_eq_ok_iff]
    simp only [Form.walk_fieldsOf_eq_ok_iff, Fits]
    exact and_iff_right (by simp)
  exact ⟨hIff, fun h => (hIff.mp h).keysKept⟩

theorem coerce_eq_accepted_iff_fits_nested :
    (ofFields [("rows", .nested [("a", .scalar { kind := .int, array := true }),
        ("b", .scalar { kind := .string, optional := true })])]).KeysKept
      (.obj [("rows", .arr [.obj [("c", .null), ("a", .str "1,2")]])])
      [("rows", .arr [.obj [("a", .arr [.num (.int 1 (by decide)), .num (.int 2 (by decide))])]])] := by
  refine (coerce_eq_accepted_iff_fits _ .lenient _ _).2 ?_
  decide +kernel

end Schema

end Conform
