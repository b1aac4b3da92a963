import Conform.Proofs.Stops

/-! # The paths of failures

A rejection names the first position that does not fit: its path can be walked through the schema and
the input, it ends at a value that is rejected on its own or at a required field that is absent, and
everything before it in document order was coerced. Of the faults about values only one exists: a
list or an object where the kind mixed asks for a scalar.
-/

set_option autoImplicit false

namespace Conform

namespace Json

def isCompound : Json → Bool
  | .arr _ | .obj _ => true
  | _ => false

theorem isArray_of_scalar {value : Json} (h : value.isCompound = false) : value.isArray = false := by
  cases value with
  | arr _ => cases h
  | null | bool _ | num _ | str _ | obj _ => rfl

end Json

namespace Kind

section Compound

variable {mode : Mode} {value out : Json} {kind : Kind} {kinds : List Kind}

theorem not_fits_of_isCompound (h : value.isCompound = true) : ¬ kind.Fits mode value out := by
  have hn : ∀ n, ¬ value.DenotesNumber mode n := by
    intro n hn
    cases hn <;> cases h
  have hb : ∀ b, ¬ value.DenotesBoolean mode b := by
    intro b hb
    cases hb <;> cases h
  have hNull : ¬ value.DenotesNull mode := by
    intro hNull
    cases hNull <;> cases h
  intro hFits
  cases hFits with
  | int hNumber _ | float hNumber | mixedNumber hNumber => exact hn _ hNumber
  | boolean hBoolean | mixedBoolean _ hBoolean => exact hb _ hBoolean
  | null hOther | mixedNull _ _ hOther => exact hNull hOther
  | string hText | mixedString _ _ _ hText =>
    subst hText
    cases h

theorem readFirst?_of_isCompound (h : value.isCompound = true) :
    readFirst? mode value kinds = none :=
  List.findSome?_eq_none_iff.mpr fun _ _ => read?_eq_none_iff.mpr fun _ => not_fits_of_isCompound h

theorem exists_fits_mixed_of_scalar (h : value.isCompound = false) :
    ∃ out, Kind.mixed.Fits mode value out := by
  cases value with
  | null => exact exists_fits_mixed (.null .null)
  | bool b => exact exists_fits_mixed (.boolean (.boolean b))
  | num n => exact exists_fits_mixed (.float (.number n))
  | str text => exact exists_fits_mixed (.string rfl)
  | arr _ | obj _ => cases h

theorem refusal_eq_notScalar_iff : refusal kinds = .notScalar ↔ .mixed ∈ kinds := by
  simp [refusal]

theorem unread?_eq_none_iff :
    unread? mode kinds value = none ↔ ∃ out, FitsFirst mode value kinds out := by
  simp only [← readFirst?_eq_some_iff, ← Option.isSome_iff_exists, unread?]
  cases (readFirst? mode value kinds).isSome <;> simp

/-- Only mixed makes a fault of a value, and only of a list or an object. -/
theorem unread?_eq_notScalar_iff :
    unread? mode kinds value = some .notScalar ↔ .mixed ∈ kinds ∧ value.isCompound = true := by
  cases hRead : unread? mode kinds value with
  | none =>
    obtain ⟨out, hOut⟩ := unread?_eq_none_iff.mp hRead
    obtain ⟨kind, _, hFits⟩ := hOut.exists_fits
    constructor
    · nofun
    · exact fun h => absurd hFits (not_fits_of_isCompound h.2)
  | some reason =>
    have hNone : ¬ ∃ out, FitsFirst mode value kinds out := by
      rw [← unread?_eq_none_iff, hRead]
      nofun
    obtain rfl : refusal kinds = reason := by
      rw [unread?] at hRead
      split at hRead
      · cases hRead
      · exact Option.some.inj hRead
    rw [Option.some.injEq, refusal_eq_notScalar_iff]
    refine (and_iff_left_of_imp fun hMixed => ?_).symm
    rw [← Bool.not_eq_false]
    intro hScalar
    exact hNone (exists_fitsFirst ⟨.mixed, hMixed, exists_fits_mixed_of_scalar hScalar⟩)

theorem castBoolean_of_isBoolean (path : Path) (h : value.isBoolean mode = true) :
    ∃ b, value.castBoolean path = .ok (.bool b) := by
  obtain ⟨b, hb⟩ := Json.isBoolean_iff.mp h
  exact ⟨b, castBoolean_eq path hb⟩

theorem castNumber_of_isNumber (path : Path)
    (h : value.isInt mode = true ∨ value.isNumber mode = true) :
    ∃ n, value.castNumber path = .ok (.num n) := by
  have hNumber : ∃ n, value.DenotesNumber mode n := by
    rcases h with hInt | hNumber
    · obtain ⟨n, hn, _⟩ := Json.isInt_iff.mp hInt
      exact ⟨n, hn⟩
    · exact Json.isNumber_iff.mp hNumber
  obtain ⟨n, hn⟩ := hNumber
  exact ⟨n, castNumber_eq path hn⟩

end Compound

end Kind

namespace Form

mutual

/-- The forms within a form that have no fields of their own. -/
def leaves : Form → List Form
  | .nested fields => leavesOf fields
  | form => [form]

def leavesOf : List (String × Form) → List Form
  | [] => []
  | (_, form) :: rest => form.leaves ++ leavesOf rest

end

def kinds : Form → List Kind
  | .scalar tag => [tag.kind]
  | .union kinds => kinds
  | .nested _ => []

theorem mem_leavesOf {fields : List (String × Form)} {field : String × Form} {leaf : Form}
    (hField : field ∈ fields) (hLeaf : leaf ∈ field.2.leaves) : leaf ∈ leavesOf fields := by
  induction fields with
  | nil => cases hField
  | cons head rest ih =>
    rw [leavesOf, List.mem_append]
    rcases List.mem_cons.mp hField with rfl | hRest
    · exact Or.inl hLeaf
    · exact Or.inr (ih hRest)

end Form

/-- The leaves of a schema, at any depth. -/
def Schema.leaves (schema : Schema) : List Form := Form.leavesOf schema.fields

namespace Place

/-- A list or an object that mixed stands against. A union turns lists away before any kind is tried. -/
inductive Unmixable : Place → Prop
  | tag {level : Nat} {tag : Tag} {value : Json} : tag.kind = .mixed → tag.array = false →
      value.isCompound = true → Unmixable (.field level (.scalar tag) value)
  | element {kind : Kind} {value : Json} : kind = .mixed → value.isCompound = true →
      Unmixable (.element kind value)
  | union {level : Nat} {kinds : List Kind} {entries : Record} : .mixed ∈ kinds →
      Unmixable (.field level (.union kinds) (.obj entries))

section Faults

variable {options : Options} {mode : Mode} {place : Place} {path : Path} {reason : Reason}

theorem unmixable_of_refusal (h : place.refusal? options = some .notScalar) : place.Unmixable := by
  cases place with
  | record level fields value =>
    simp only [refusal?] at h
    split at h
    · cases h
    · split at h <;> cases h
  | field level form value =>
    cases form with
    | scalar tag =>
      simp only [refusal?] at h
      split at h
      · split at h <;> cases h
      · rename_i hArray
        obtain ⟨hMixed, hValue⟩ := Kind.unread?_eq_notScalar_iff.mp h
        exact .tag (List.mem_singleton.mp hMixed).symm (by simpa using hArray) hValue
    | union kinds =>
      simp only [refusal?] at h
      split at h
      · cases h
      · rename_i hArray
        obtain ⟨hMixed, hValue⟩ := Kind.unread?_eq_notScalar_iff.mp h
        cases value with
        | obj entries => exact .union hMixed
        | arr _ => exact absurd rfl hArray
        | null | bool _ | num _ | str _ => cases hValue
    | nested fields =>
      simp only [refusal?] at h
      split at h <;> cases h
  | element kind value =>
    obtain ⟨hMixed, hValue⟩ := Kind.unread?_eq_notScalar_iff.mp h
    exact .element (List.mem_singleton.mp hMixed).symm hValue
  | missing form =>
    simp only [refusal?] at h
    split at h <;> cases h

theorem refusal?_eq_notScalar_iff :
    place.refusal? options = some .notScalar ↔ place.Unmixable := by
  constructor
  · exact unmixable_of_refusal
  · intro h
    cases h with
    | tag hMixed hArray hValue =>
      rw [refusal?, if_neg (by simp [hArray])]
      exact Kind.unread?_eq_notScalar_iff.mpr ⟨List.mem_singleton.mpr hMixed.symm, hValue⟩
    | element hMixed hValue =>
      exact Kind.unread?_eq_notScalar_iff.mpr ⟨List.mem_singleton.mpr hMixed.symm, hValue⟩
    | union hMixed => exact Kind.unread?_eq_notScalar_iff.mpr ⟨hMixed, rfl⟩

theorem refusal?_eq_depthExceeded_iff : place.refusal? options = some .depthExceeded ↔
    ∃ level fields value, place = .record level fields value ∧ options.maxDepth ≠ 0 ∧
      options.maxDepth < level + 1 := by
  have hUnread : ∀ kinds value, Kind.unread? options.mode kinds value ≠ some .depthExceeded := by
    intro kinds value
    rw [Kind.unread?, Kind.refusal]
    split_ifs <;> simp
  cases place with
  | record level fields value =>
    rw [refusal?]
    by_cases hDepth : options.maxDepth ≠ 0 ∧ options.maxDepth < level + 1
    · rw [if_pos hDepth]
      exact iff_of_true rfl ⟨level, fields, value, rfl, hDepth⟩
    · rw [if_neg hDepth]
      refine iff_of_false ?_ ?_
      · intro h
        split at h <;> cases h
      · rintro ⟨_, _, _, h, hLimit⟩
        cases h
        exact hDepth hLimit
  | field level form value =>
    cases form <;> simp only [refusal?] <;> split_ifs <;> simp [hUnread]
  | element kind value => simp [refusal?, hUnread]
  | missing form =>
    simp only [refusal?]
    split_ifs <;> simp

/-- Whatever passes from a place to its parts holds at the end of every path. -/
theorem at?_invariant {P : Place → Prop}
    (step : ∀ place entry, P place → entry ∈ place.parts mode → P entry.2) {found : Place}
    (h : P place) (hFound : place.at? mode path = some found) : P found := by
  induction path generalizing place with
  | nil => exact Option.some.inj hFound ▸ h
  | cons token rest ih =>
    obtain ⟨part, hPart, hRest⟩ := at?_cons.mp hFound
    exact ih (step place (token, part) h (mem_parts_of_lookup hPart)) hRest

theorem parts_strict_or_text (mode : Mode) (place : Place) :
    place.parts .strict = place.parts mode ∨
      ∃ level tag text, place = .field level (.scalar tag) (.str text) := by
  cases place with
  | field level form value =>
    cases form with
    | scalar tag =>
      cases value with
      | str text => exact Or.inr ⟨level, tag, text, rfl⟩
      | null | bool _ | num _ | arr _ | obj _ => exact Or.inl rfl
    | union kinds => exact Or.inl rfl
    | nested fields => cases value <;> exact Or.inl rfl
  | record level fields value => cases value <;> exact Or.inl rfl
  | element kind value => exact Or.inl rfl
  | missing form => exact Or.inl rfl

/-- The pieces of a text are texts, and they have no parts. -/
theorem at?_text {level : Nat} {tag : Tag} {text token : String} {part found : Place}
    (hPart : (token, part) ∈ (field level (.scalar tag) (.str text)).parts mode)
    (hFound : part.at? mode path = some found) :
    ∃ piece, found = .element tag.kind (.str piece) := by
  cases partOf_of_mem hPart with
  | element _ hElements hMem =>
    rw [Json.elements?] at hElements
    split at hElements
    · cases hElements
      obtain ⟨piece, _, rfl⟩ := List.mem_map.mp hMem
      cases path with
      | nil => exact ⟨_, (Option.some.inj hFound).symm⟩
      | cons _ _ => cases hFound
    · cases hElements

/-- A path to a list or an object goes through no text. -/
theorem Unmixable.at?_strict {found : Place} (hFound : found.Unmixable)
    (h : place.at? mode path = some found) : place.at? .strict path = some found := by
  induction path generalizing place with
  | nil => exact h
  | cons token rest ih =>
    obtain ⟨part, hPart, hRest⟩ := at?_cons.mp h
    refine at?_cons.mpr ⟨part, ?_, ih hRest⟩
    rcases parts_strict_or_text mode place with hParts | ⟨level, tag, text, rfl⟩
    · rw [hParts]
      exact hPart
    · obtain ⟨piece, rfl⟩ := at?_text (mem_parts_of_lookup hPart) hRest
      cases hFound with
      | element _ hValue => cases hValue

/-- No kind by which a value at a place or within it is read is mixed. -/
def MixedFree : Place → Prop
  | .record _ fields _ => ∀ leaf ∈ Form.leavesOf fields, .mixed ∉ leaf.kinds
  | .field _ form _ => ∀ leaf ∈ form.leaves, .mixed ∉ leaf.kinds
  | .element kind _ => .mixed ≠ kind
  | .missing _ => True

theorem mixedFree_of_mem_parts (place : Place) (entry : String × Place) (h : place.MixedFree)
    (hMem : entry ∈ place.parts mode) : entry.2.MixedFree := by
  cases partOf_of_mem hMem with
  | field hField _ => exact fun leaf hLeaf => h leaf (Form.mem_leavesOf hField hLeaf)
  | missing _ _ => trivial
  | item _ => exact h
  | @element _ tag _ _ _ _ _ _ _ =>
    exact fun hMixed => h (.scalar tag) (List.mem_singleton.mpr rfl) (List.mem_singleton.mpr hMixed)

theorem MixedFree.not_unmixable (h : place.MixedFree) : ¬ place.Unmixable := by
  intro hUnmixable
  cases hUnmixable with
  | @tag _ tag _ hMixed _ _ =>
    exact h (.scalar tag) (List.mem_singleton.mpr rfl) (List.mem_singleton.mpr hMixed.symm)
  | element hMixed _ => exact h hMixed.symm
  | union hMixed => exact h (.union _) (List.mem_singleton.mpr rfl) hMixed

end Faults

section Rejections

variable {options : Options} {place : Place} {path : Path}

/-- A path names the first position that does not fit. -/
structure FirstMisfit (options : Options) (place : Place) (path : Path) : Prop where
  /-- It ends at an object that lacks a required field, or at a value rejected on its own. -/
  misfit : (∃ front name level fields entries form, path = front ++ [name] ∧
      place.at? options.mode front = some (.record level fields (.obj entries)) ∧
      (name, form) ∈ fields ∧ form.isOptional = false ∧ name ∉ Entries.names entries) ∨
    ∃ found value, place.at? options.mode path = some found ∧ found.value? = some value ∧
      found.failure? options = some (.rejected, [])
  /-- At each of its levels, everything that comes before it is coerced or is absent and optional. -/
  earlier : ∀ front token rest found, path = front ++ token :: rest →
    place.at? options.mode front = some found → ∀ part ∈ found.before options.mode token,
      part.failure? options = none

theorem Stops.firstMisfit (h : place.Stops options path .rejected) (hDistinct : place.Distinct)
    (hPresent : place.value?.isSome = true) : place.FirstMisfit options path := by
  obtain ⟨found, hFound, hRefusal⟩ := h.exists_at? hDistinct
  constructor
  · cases hValue : found.value? with
    | some value => exact Or.inr ⟨found, value, hFound, hValue, failure?_of_refusal hRefusal⟩
    | none =>
      left
      cases found with
      | missing form =>
        rcases at?_missing hFound with
          ⟨_, rfl⟩ | ⟨front, name, level, fields, entries, hPath, hFront, hField, hLookup⟩
        · cases hPresent
        · refine ⟨front, name, level, fields, entries, form, hPath, hFront, hField, ?_,
            Entries.lookup_eq_none_iff.mp hLookup⟩
          rw [refusal?] at hRefusal
          cases hOptional : form.isOptional with
          | true => simp [hOptional] at hRefusal
          | false => rfl
      | record _ _ _ | field _ _ _ | element _ _ => cases hValue
  · intro front token rest other hPath hOther part hPart
    exact failure?_eq_none_iff.mpr (h.stop?_before hDistinct hPath hOther part hPart)

end Rejections

end Place

namespace Schema

section Failures

variable {schema : Schema} {input : Json} {options : Options}

theorem firstMisfit_of_coerce_eq_rejected (schema : Schema) (input : Json) (options : Options)
    (path : Path) (h : schema.coerce input options = .rejected path) :
    (schema.root input).FirstMisfit options path :=
  (coerce_eq_rejected_iff.mp h).firstMisfit (schema.distinct_root input) rfl

-- The second piece of the text in the second row is no integer.
theorem firstMisfit_of_coerce_eq_rejected_piece :
    rowsSchema.coerce rowsInput { mode := .lenient } = .rejected ["rows", "1", "cells", "1"] ∧
      (rowsSchema.root rowsInput).FirstMisfit { mode := .lenient } ["rows", "1", "cells", "1"] := by
  have h : rowsSchema.coerce rowsInput { mode := .lenient } =
      .rejected ["rows", "1", "cells", "1"] := by decide +kernel
  exact ⟨h, firstMisfit_of_coerce_eq_rejected _ _ _ _ h⟩

theorem stops_of_coerce_eq_faulted {cause : Fault}
    (h : schema.coerce input options = .faulted cause) :
    (∃ path, cause = .notScalar path ∧ (schema.root input).Stops options path .notScalar) ∨
      cause = .depthExceeded ∧ ∃ path, (schema.root input).Stops options path .depthExceeded := by
  obtain ⟨path, reason, hStops, hCause⟩ := coerce_eq_faulted_iff.mp h
  cases reason with
  | rejected => cases hCause
  | notScalar =>
    cases hCause
    exact Or.inl ⟨path, rfl, hStops⟩
  | depthExceeded =>
    cases hCause
    exact Or.inr ⟨rfl, path, hStops⟩

/-- Casts that follow their tests succeed, so the only fault about a value is one that mixed makes of a
list or an object. Without mixed and without a limit on the depth there is no fault. -/
theorem faults_only_at_mixed (schema : Schema) (input : Json) (options : Options) :
    (∀ (value : Json) (path : Path),
      (value.isBoolean options.mode = true → ∃ b, value.castBoolean path = .ok (.bool b)) ∧
      (value.isInt options.mode = true ∨ value.isNumber options.mode = true →
        ∃ n, value.castNumber path = .ok (.num n))) ∧
    (∀ path, schema.coerce input options ≠ .faulted (.notBoolean path) ∧
      schema.coerce input options ≠ .faulted (.notNumber path)) ∧
    (∀ path, schema.coerce input options = .faulted (.notScalar path) →
      ∃ place, (schema.root input).at? .strict path = some place ∧ place.Unmixable) ∧
    (options.maxDepth = 0 → (∀ leaf ∈ schema.leaves, .mixed ∉ leaf.kinds) →
      ∀ cause, schema.coerce input options ≠ .faulted cause) := by
  have hMixed : ∀ path, (schema.root input).Stops options path .notScalar →
      ∃ place, (schema.root input).at? options.mode path = some place ∧ place.Unmixable := by
    intro path hStops
    obtain ⟨place, hPlace, hRefusal⟩ := hStops.exists_at? (schema.distinct_root input)
    exact ⟨place, hPlace, Place.refusal?_eq_notScalar_iff.mp hRefusal⟩
  refine ⟨?_, ?_, ?_, ?_⟩
  · exact fun value path =>
      ⟨Kind.castBoolean_of_isBoolean path, Kind.castNumber_of_isNumber path⟩
  · intro path
    constructor <;> intro h <;> rcases stops_of_coerce_eq_faulted h with ⟨_, hCause, _⟩ | ⟨hCause, _⟩ <;>
      cases hCause
  · intro path h
    rcases stops_of_coerce_eq_faulted h with ⟨_, hCause, hStops⟩ | ⟨hCause, _⟩
    · cases hCause
      obtain ⟨place, hPlace, hUnmixable⟩ := hMixed path hStops
      exact ⟨place, hUnmixable.at?_strict hPlace, hUnmixable⟩
    · cases hCause
  · intro hDepth hFree cause h
    rcases stops_of_coerce_eq_faulted h with ⟨path, _, hStops⟩ | ⟨_, path, hStops⟩
    · obtain ⟨place, hPlace, hUnmixable⟩ := hMixed path hStops
      have hRoot : (schema.root input).MixedFree := hFree
      have hPlaceFree := Place.at?_invariant Place.mixedFree_of_mem_parts hRoot hPlace
      exact hPlaceFree.not_unmixable hUnmixable
    · obtain ⟨place, _, hRefusal⟩ := hStops.exists_at? (schema.distinct_root input)
      obtain ⟨_, _, _, _, hLimit, _⟩ := Place.refusal?_eq_depthExceeded_iff.mp hRefusal
      exact hLimit hDepth

-- Mixed stands last in the union, and the object that it meets lies in a list of records. No row of
-- integers makes a fault.
theorem faults_only_at_mixed_union :
    (∃ b, (Json.str "true").castBoolean ["a"] = .ok (.bool b)) ∧
    (∃ n, (Json.str "0x1F").castNumber ["a"] = .ok (.num n)) ∧
    (ofFields [("rows", .nested [("a", .union [.int, .mixed])])]).coerce
        (.obj [("rows", .arr [.obj [("a", .obj [])]])]) {} = .faulted (.notScalar ["rows", "0", "a"]) ∧
    (∃ place, ((ofFields [("rows", .nested [("a", .union [.int, .mixed])])]).root
        (.obj [("rows", .arr [.obj [("a", .obj [])]])])).at? .strict ["rows", "0", "a"] = some place ∧
          place.Unmixable) ∧
    ∀ cause, rowsSchema.coerce rowsInput { mode := .lenient } ≠ .faulted cause := by
  have h : (ofFields [("rows", .nested [("a", .union [.int, .mixed])])]).coerce
      (.obj [("rows", .arr [.obj [("a", .obj [])]])]) {} =
        .faulted (.notScalar ["rows", "0", "a"]) := by decide +kernel
  have hCasts := (faults_only_at_mixed rowsSchema rowsInput { mode := .lenient }).1
  exact ⟨(hCasts (.str "true") ["a"]).1 (by decide +kernel),
    (hCasts (.str "0x1F") ["a"]).2 (Or.inl (by decide +kernel)), h,
    (faults_only_at_mixed _ _ {}).2.2.1 _ h,
    (faults_only_at_mixed rowsSchema rowsInput { mode := .lenient }).2.2.2 rfl (by decide +kernel)⟩

end Failures

end Schema

end Conform
