import Conform.Proofs.Cursor
import Mathlib.Data.List.Nodup

/-! # Composition

Nothing of one field survives into the next, and nothing of one record of a list. The outcome of a schema
is put together from the outcomes of its fields, and the outcome of a list of records from those that
the records have on their own.
-/

set_option autoImplicit false

namespace Conform

def Fault.under (front : Path) : Fault → Fault
  | .notBoolean path => .notBoolean (front ++ path)
  | .notNumber path => .notNumber (front ++ path)
  | .notScalar path => .notScalar (front ++ path)
  | .depthExceeded => .depthExceeded

namespace Outcome

/-- An outcome with more in front of its path. -/
def under (front : Path) : Outcome → Outcome
  | .accepted record => .accepted record
  | .rejected path => .rejected (front ++ path)
  | .faulted cause => .faulted (cause.under front)

/-- The first of two outcomes that does not accept, or else their records one after the other. -/
def append : Outcome → Outcome → Outcome
  | .accepted first, .accepted second => .accepted (first ++ second)
  | .accepted _, other => other
  | other, _ => other

theorem under_under (front path : Path) (outcome : Outcome) :
    (outcome.under path).under front = outcome.under (front ++ path) := by
  cases outcome with
  | accepted record => rfl
  | rejected rest => exact congrArg Outcome.rejected (List.append_assoc front path rest).symm
  | faulted cause => cases cause <;> simp [under, Fault.under]

end Outcome

namespace Walk

theorem outcome_under (token : String) (stop : Stop) :
    outcome (.error (stop.under token)) = (outcome (.error stop)).under [token] := by
  obtain ⟨path, reason⟩ := stop
  cases reason <;> rfl

/-- Both records one after the other. -/
def append (first second : Walk Record) : Walk Record :=
  first >>= fun outs => second >>= fun others => .ok (outs ++ others)

theorem outcome_append (first second : Walk Record) :
    (first.append second).outcome = first.outcome.append second.outcome := by
  cases first with
  | ok outs =>
    cases second with
    | ok others => rfl
    | error stop =>
      obtain ⟨path, reason⟩ := stop
      cases reason <;> rfl
  | error stop =>
    obtain ⟨path, reason⟩ := stop
    cases reason <;> rfl

section Fields

variable {options : Options} {level : Nat}

theorem fieldsOf_append (first second : List (String × Form)) (entries : Record) :
    fieldsOf options (first ++ second) level entries =
      (fieldsOf options first level entries).append (fieldsOf options second level entries) := by
  induction first with
  | nil =>
    rw [List.nil_append]
    cases fieldsOf options second level entries <;> rfl
  | cons field rest ih =>
    obtain ⟨name, f⟩ := field
    rw [List.cons_append, fieldsOf, fieldsOf, ih]
    cases entries.lookup name with
    | some value =>
      dsimp only
      cases form options f level value with
      | error stop => rfl
      | ok out =>
        cases fieldsOf options rest level entries with
        | error stop => rfl
        | ok outs => cases fieldsOf options second level entries <;> rfl
    | none =>
      cases f.isOptional with
      | true => rfl
      | false => rfl

theorem record_append (first second : Record → Walk Record) (input : Json) :
    record options level (fun entries => (first entries).append (second entries)) input =
      (record options level first input).append (record options level second input) := by
  rw [record, record, record]
  split
  · rfl
  · cases input.toRecord? <;> rfl

end Fields

section Levels

variable {mode : Mode} {limit inner : Nat}

/-- The first limit forbids a level exactly if the second forbids the level before it. -/
def Shifted (limit inner : Nat) : Prop :=
  ∀ level, (limit ≠ 0 ∧ limit < level + 1) ↔ (inner ≠ 0 ∧ inner < level)

/-- No limit stays no limit. -/
theorem shifted_pred (h : limit ≠ 1) : Shifted limit (limit - 1) := by
  intro level
  omega

theorem record_shifted (h : Shifted limit inner) {level : Nat}
    {fields innerFields : Record → Walk Record}
    (hFields : ∀ entries, fields entries = innerFields entries) (input : Json) :
    record { mode, maxDepth := limit } (level + 1) fields input =
      record { mode, maxDepth := inner } level innerFields input := by
  rw [record, record, funext hFields]
  exact if_congr (h level) rfl rfl

mutual

/-- One record further in, under a limit that allows one level more, a walk does the same. -/
theorem form_shifted (h : Shifted limit inner) : (f : Form) → (level : Nat) → (value : Json) →
    form { mode, maxDepth := limit } f (level + 1) value =
      form { mode, maxDepth := inner } f level value
  | .scalar tag, level, value => by
    unfold form
    rfl
  | .union kinds, level, value => by
    unfold form
    rfl
  | .nested fields, level, value => by
    unfold form
    congr 1
    funext item
    rw [record_shifted h (fieldsOf_shifted h fields (level + 1))]

theorem fieldsOf_shifted (h : Shifted limit inner) : (fields : List (String × Form)) →
    (level : Nat) → (entries : Record) →
    fieldsOf { mode, maxDepth := limit } fields (level + 1) entries =
      fieldsOf { mode, maxDepth := inner } fields level entries
  | [], level, entries => rfl
  | (name, f) :: rest, level, entries => by
    unfold fieldsOf
    simp only [form_shifted h f level, fieldsOf_shifted h rest level entries]

end

theorem elementsFrom_error {walk : Json → Walk Json} {front back : List Json} {element : Json}
    {stop : Stop} (hFront : ∀ earlier ∈ front, ∃ value, walk earlier = .ok value)
    (h : walk element = .error stop) (index : Nat) :
    elementsFrom walk index (front ++ element :: back) =
      .error (stop.under (toString (index + front.length))) := by
  induction front generalizing index with
  | nil =>
    rw [List.nil_append, elementsFrom, h]
    rfl
  | cons earlier rest ih =>
    obtain ⟨⟨value, hValue⟩, hRest⟩ := List.forall_mem_cons.mp hFront
    rw [List.cons_append, elementsFrom, hValue, under_ok, ok_bind, ih hRest, error_bind,
      List.length_cons, Nat.add_right_comm, Nat.add_assoc]

end Levels

end Walk

namespace Schema

section Fields

/-- The fields of two schemas that share no name. -/
def append (first second : Schema)
    (h : (Entries.names first.fields).Disjoint (Entries.names second.fields)) : Schema where
  fields := first.fields ++ second.fields
  distinct := by
    constructor
    · rw [Entries.names, List.map_append]
      exact List.Nodup.append first.distinct.1 second.distinct.1 h
    · rw [Form.distinctAll_iff, List.forall_mem_append]
      exact ⟨Form.distinctAll_iff.mp first.distinct.2, Form.distinctAll_iff.mp second.distinct.2⟩

def empty : Schema where
  fields := []
  distinct := ⟨List.nodup_nil, trivial⟩

/-- Every field as a schema of its own. -/
def fieldwise : (fields : List (String × Form)) → Form.DistinctAll fields → List Schema
  | [], _ => []
  | field :: rest, h =>
    { fields := [field], distinct := ⟨List.nodup_singleton _, h.1, trivial⟩ } :: fieldwise rest h.2

theorem walk_append {options : Options} {input : Json} {first second schema : Schema}
    (h : schema.fields = first.fields ++ second.fields) :
    schema.walk options input = (first.walk options input).append (second.walk options input) := by
  rw [walk, h, funext (Walk.fieldsOf_append first.fields second.fields)]
  exact Walk.record_append _ _ input

theorem coerce_eq_append {options : Options} {input : Json} {first second schema : Schema}
    (h : schema.fields = first.fields ++ second.fields) :
    schema.coerce input options = (first.coerce input options).append (second.coerce input options) := by
  rw [coerce_eq_outcome, coerce_eq_outcome, coerce_eq_outcome, walk_append h, Walk.outcome_append]

theorem coerce_eq_foldr (input : Json) (options : Options) (schema : Schema) :
    schema.coerce input options =
      ((fieldwise schema.fields schema.distinct.2).map (·.coerce input options)).foldr Outcome.append
        (empty.coerce input options) := by
  obtain ⟨fields, hNodup, hDistinct⟩ := schema
  induction fields with
  | nil => rfl
  | cons field rest ih =>
    have hRest := ih (List.nodup_cons.mp hNodup).2 hDistinct.2
    rw [fieldwise, List.map_cons, List.foldr_cons, ← hRest]
    exact coerce_eq_append rfl

/-- The fields of a schema do not influence one another. The first of them that fails decides the outcome,
and if none fails their records stand one after the other. -/
theorem coerce_by_fields (input : Json) (options : Options) :
    (∀ (first second : Schema)
      (h : (Entries.names first.fields).Disjoint (Entries.names second.fields)),
      (first.append second h).coerce input options =
        (first.coerce input options).append (second.coerce input options)) ∧
    ∀ schema : Schema, schema.coerce input options =
      ((fieldwise schema.fields schema.distinct.2).map (·.coerce input options)).foldr Outcome.append
        (empty.coerce input options) :=
  ⟨fun _ _ _ => coerce_eq_append rfl, coerce_eq_foldr input options⟩

def countSchema : Schema := .ofFields [("count", .scalar { kind := .int })]

def noteSchema : Schema := .ofFields [("note", .scalar { kind := .mixed, optional := true })]

-- A fault of the second field counts only if the first field was accepted.
theorem coerce_by_fields_pair :
    ∃ h : (Entries.names countSchema.fields).Disjoint (Entries.names noteSchema.fields),
      (countSchema.append noteSchema h).coerce (.obj [("note", .null), ("count", .str "7")])
        { mode := .lenient } = .accepted [("count", .num (.int 7 (by decide))), ("note", .null)] ∧
      (countSchema.append noteSchema h).coerce (.obj [("note", .arr []), ("count", .str "7")])
        { mode := .lenient } = .faulted (.notScalar ["note"]) ∧
      (countSchema.append noteSchema h).coerce (.obj [("note", .arr []), ("count", .str "seven")])
        { mode := .lenient } = .rejected ["count"] := by
  have h : (Entries.names countSchema.fields).Disjoint (Entries.names noteSchema.fields) := by
    simp [countSchema, noteSchema, ofFields, Form.mergedFields, Entries.ofList, Entries.put,
      Entries.names]
  refine ⟨h, ?_, ?_, ?_⟩
  all_goals
    rw [(coerce_by_fields _ _).1 countSchema noteSchema h]
    decide +kernel

end Fields

section Lists

variable {schema : Schema} {name : String} {values : List Json} {mode : Mode} {limit : Nat}

/-- A list of records of the schema as the only field. -/
def listed (schema : Schema) (name : String) : Schema where
  fields := [(name, schema.form)]
  distinct := ⟨List.nodup_singleton _, schema.distinct, trivial⟩

theorem walk_obj (schema : Schema) (options : Options) (entries : Record) :
    schema.walk options (.obj entries) = Walk.fieldsOf options schema.fields 1 entries := by
  -- No limit is lower than the level of the input itself.
  have hRoot : ¬ (options.maxDepth ≠ 0 ∧ options.maxDepth < 1) := by omega
  rw [walk, Walk.record, if_neg hRoot]
  rfl

theorem walk_listed (schema : Schema) (name : String) (values : List Json) (options : Options) :
    (schema.listed name).walk options (.obj [(name, .arr values)]) =
      (Walk.under name (Walk.elementsFrom (fun value =>
        Walk.record options 2 (Walk.fieldsOf options schema.fields 2) value >>= fun out =>
          .ok (.obj out)) 0 values) >>= fun outs => .ok [(name, .arr outs)]) := by
  rw [walk_obj, listed, Walk.fieldsOf, List.lookup_cons_self]
  dsimp only
  rw [form, Walk.form, Json.toElements?, Walk.elements]
  cases Walk.elementsFrom _ 0 values <;> rfl

theorem walk_listed_of_ne_one (schema : Schema) (name : String) (values : List Json) (mode : Mode)
    (h : limit ≠ 1) :
    (schema.listed name).walk { mode, maxDepth := limit } (.obj [(name, .arr values)]) =
      (Walk.under name (Walk.elementsFrom (fun value =>
        schema.walk { mode, maxDepth := limit - 1 } value >>= fun out => .ok (.obj out)) 0 values) >>=
          fun outs => .ok [(name, .arr outs)]) := by
  have hShifted := Walk.shifted_pred h
  have hRecord : ∀ value, Walk.record { mode, maxDepth := limit } 2
      (Walk.fieldsOf { mode, maxDepth := limit } schema.fields 2) value =
        schema.walk { mode, maxDepth := limit - 1 } value := fun value =>
    Walk.record_shifted hShifted (Walk.fieldsOf_shifted hShifted schema.fields 1) value
  rw [walk_listed, funext hRecord]

theorem coerce_listed_accepted (hLimit : limit ≠ 1) {records : List Record}
    (h : List.Forall₂ (fun value record =>
      schema.coerce value { mode, maxDepth := limit - 1 } = .accepted record) values records) :
    (schema.listed name).coerce (.obj [(name, .arr values)]) { mode, maxDepth := limit } =
      .accepted [(name, .arr (records.map Json.obj))] := by
  have hOuts : List.Forall₂ (fun value out =>
      (schema.walk { mode, maxDepth := limit - 1 } value >>= fun record =>
        .ok (Json.obj record)) = .ok out) values (records.map Json.obj) := by
    refine List.forall₂_map_right_iff.mpr (h.imp ?_)
    intro value record hRecord
    rw [coerce_eq_accepted_iff.mp hRecord]
    rfl
  rw [coerce_eq_accepted_iff, walk_listed_of_ne_one _ _ _ _ hLimit,
    Walk.elementsFrom_eq_ok_iff.mpr hOuts]
  rfl

/-- The first record that is not accepted decides, whatever comes after it. -/
theorem coerce_listed_first (hLimit : limit ≠ 1) {front back : List Json} {value : Json}
    (hFront : ∀ earlier ∈ front, ∃ record,
      schema.coerce earlier { mode, maxDepth := limit - 1 } = .accepted record)
    (hValue : ∀ record, schema.coerce value { mode, maxDepth := limit - 1 } ≠ .accepted record) :
    (schema.listed name).coerce (.obj [(name, .arr (front ++ value :: back))])
        { mode, maxDepth := limit } =
      (schema.coerce value { mode, maxDepth := limit - 1 }).under [name, toString front.length] := by
  have hEarlier : ∀ earlier ∈ front, ∃ out,
      (schema.walk { mode, maxDepth := limit - 1 } earlier >>= fun record =>
        .ok (Json.obj record)) = .ok out := by
    intro earlier hMem
    obtain ⟨record, hRecord⟩ := hFront earlier hMem
    exact ⟨.obj record, by rw [coerce_eq_accepted_iff.mp hRecord]; rfl⟩
  rw [coerce_eq_outcome, coerce_eq_outcome, walk_listed_of_ne_one _ _ _ _ hLimit]
  cases hWalk : schema.walk { mode, maxDepth := limit - 1 } value with
  | ok record => exact absurd (coerce_eq_accepted_iff.mpr hWalk) (hValue record)
  | error stop =>
    rw [Walk.elementsFrom_error hEarlier (by rw [hWalk]; rfl), Nat.zero_add, Walk.under_error,
      Walk.error_bind, Walk.outcome_under, Walk.outcome_under, Outcome.under_under]
    rfl

/-- The records of a list are coerced as they would be alone, under a limit that is one level lower, and
the first that fails decides the outcome. Where there is no limit there is none for them either. -/
theorem coerce_listed (schema : Schema) (name : String) (values : List Json) (mode : Mode)
    (limit : Nat) :
    (limit ≠ 1 →
      (∀ records, List.Forall₂ (fun value record =>
          schema.coerce value { mode, maxDepth := limit - 1 } = .accepted record) values records →
        (schema.listed name).coerce (.obj [(name, .arr values)]) { mode, maxDepth := limit } =
          .accepted [(name, .arr (records.map Json.obj))]) ∧
      (∀ front value back, values = front ++ value :: back →
        (∀ earlier ∈ front, ∃ record,
          schema.coerce earlier { mode, maxDepth := limit - 1 } = .accepted record) →
        (∀ record, schema.coerce value { mode, maxDepth := limit - 1 } ≠ .accepted record) →
        (schema.listed name).coerce (.obj [(name, .arr values)]) { mode, maxDepth := limit } =
          (schema.coerce value { mode, maxDepth := limit - 1 }).under
            [name, toString front.length])) ∧
    (limit = 1 →
      (schema.listed name).coerce (.obj [(name, .arr values)]) { mode, maxDepth := limit } =
        if values = [] then .accepted [(name, .arr [])] else .faulted .depthExceeded) := by
  refine ⟨fun hLimit => ⟨fun _ => coerce_listed_accepted hLimit, ?_⟩, ?_⟩
  · rintro front value back rfl
    exact coerce_listed_first hLimit
  · rintro rfl
    rw [coerce_eq_outcome, walk_listed]
    cases values <;> rfl

-- The limit of two levels leaves one to every record of the list. The null is rejected, so the fault of
-- the record after it does not count.
theorem coerce_listed_counts :
    2 ≠ 1 ∧
    List.Forall₂ (fun value record =>
        countSchema.coerce value { mode := .lenient, maxDepth := 2 - 1 } = .accepted record)
      [.obj [("count", .str "7")]] [[("count", .num (.int 7 (by decide)))]] ∧
    (countSchema.listed "items").coerce (.obj [("items", .arr [.obj [("count", .str "7")]])])
        { mode := .lenient, maxDepth := 2 } =
      .accepted [("items", .arr [.obj [("count", .num (.int 7 (by decide)))]])] ∧
    (noteSchema.listed "items").coerce
        (.obj [("items", .arr [.obj [], .null, .obj [("note", .arr [])]])]) { maxDepth := 2 } =
      (noteSchema.coerce .null { maxDepth := 2 - 1 }).under ["items", "1"] ∧
    (noteSchema.listed "items").coerce (.obj [("items", .arr [.obj [], .null])]) { maxDepth := 1 } =
      .faulted .depthExceeded := by
  have hRecords : List.Forall₂ (fun value record =>
      countSchema.coerce value { mode := .lenient, maxDepth := 2 - 1 } = .accepted record)
      [.obj [("count", .str "7")]] [[("count", .num (.int 7 (by decide)))]] :=
    .cons (by decide +kernel) .nil
  have hEarlier : ∀ earlier ∈ [Json.obj []], ∃ record,
      noteSchema.coerce earlier { maxDepth := 2 - 1 } = .accepted record := by
    intro earlier hMem
    rw [List.mem_singleton.mp hMem]
    exact ⟨[], by decide +kernel⟩
  have hNull : ∀ record, noteSchema.coerce .null { maxDepth := 2 - 1 } ≠ .accepted record := by
    intro record h
    have hRejected : noteSchema.coerce .null { maxDepth := 2 - 1 } = .rejected [] := by
      decide +kernel
    rw [hRejected] at h
    cases h
  exact ⟨by decide, hRecords,
    ((coerce_listed countSchema "items" _ .lenient 2).1 (by decide)).1 _ hRecords,
    ((coerce_listed noteSchema "items" _ .strict 2).1 (by decide)).2 _ _ _ rfl hEarlier hNull,
    (coerce_listed noteSchema "items" _ .strict 1).2 rfl⟩

end Lists

end Schema

end Conform
