import Conform.Schema.Literal

/-! # Literals as data

Data of the shape of a literal is written as it was read. Reading keeps one entry a name, so this takes
data in which no record gives a name twice; then it loses nothing, whatever the shape.
-/

set_option autoImplicit false

namespace Conform

namespace Entries

variable {α : Type}

theorem put_of_not_mem {name : String} {value : α} {entries : Entries α}
    (h : name ∉ names entries) : put name value entries = entries ++ [(name, value)] := by
  induction entries with
  | nil => rfl
  | cons entry rest ih =>
    rw [names_cons, List.mem_cons, not_or] at h
    rw [put, if_neg (Ne.symm h.1), ih h.2, List.cons_append]

theorem ofList_of_nodup {entries : List (String × α)} (h : (names entries).Nodup) :
    ofList entries = entries := by
  have hFold : ∀ acc, (names (acc ++ entries)).Nodup →
      entries.foldl (fun acc entry => put entry.1 entry.2 acc) acc = acc ++ entries := by
    induction entries with
    | nil => exact fun acc _ => (List.append_nil acc).symm
    | cons entry rest ih =>
      intro acc hAcc
      have hFresh : entry.1 ∉ names acc := by
        intro hMem
        rw [names, List.map_append, List.map_cons] at hAcc
        exact (List.nodup_append.mp hAcc).2.2 _ hMem _ List.mem_cons_self rfl
      rw [List.append_cons] at hAcc
      rw [List.foldl_cons, put_of_not_mem hFresh, ih (List.nodup_cons.mp h).2 _ hAcc]
      exact (List.append_cons acc entry rest).symm
  exact hFold [] h

end Entries

namespace Json

mutual

/-- No record within the data gives a name twice. -/
def Distinct : Json → Prop
  | .arr elements => DistinctElements elements
  | .obj entries => (Entries.names entries).Nodup ∧ DistinctEntries entries
  | _ => True

def DistinctElements : List Json → Prop
  | [] => True
  | json :: rest => json.Distinct ∧ DistinctElements rest

def DistinctEntries : List (String × Json) → Prop
  | [] => True
  | (_, json) :: rest => json.Distinct ∧ DistinctEntries rest

end

end Json

namespace Shape

theorem strings?_cons (element : Json) (rest : List Json) : strings? (element :: rest) =
    match element with
    | .str text => (strings? rest).map (text :: ·)
    | _ => none := by
  rw [strings?, List.mapM_cons]
  cases element with
  | str text => exact Option.map_eq_bind.symm
  | null | bool _ | num _ | arr _ | obj _ => rfl

theorem strings?_eq_some_iff {elements : List Json} {texts : List String} :
    strings? elements = some texts ↔ elements = texts.map .str := by
  induction elements generalizing texts with
  | nil => simp [strings?, eq_comm]
  | cons element rest ih =>
    rw [strings?_cons]
    cases element with
    | str text =>
      rw [Option.map_eq_some_iff]
      simp only [ih]
      constructor
      · rintro ⟨others, rfl, rfl⟩
        rfl
      · intro h
        cases texts with
        | nil => cases h
        | cons first others =>
          cases h
          exact ⟨others, rfl, rfl⟩
    | null | bool _ | num _ | arr _ | obj _ => cases texts <;> simp

mutual

theorem toJson_of_ofJson? : (json : Json) → (shape : Shape) → ofJson? json = some shape →
    shape.toJson = json
  | .str text, shape, h => by
    cases h
    rfl
  | .arr elements, shape, h => by
    rw [ofJson?] at h
    split at h
    · rename_i texts hTexts
      cases h
      rw [toJson, strings?_eq_some_iff.mp hTexts]
    · obtain ⟨schemas, hSchemas, rfl⟩ := Option.map_eq_some_iff.mp h
      rw [toJson, schemasToJson_of_ofJson? elements schemas hSchemas]
  | .null, _, h | .bool _, _, h | .num _, _, h | .obj _, _, h => nomatch h

theorem schemasToJson_of_ofJson? : (elements : List Json) →
    (schemas : List (List (String × Shape))) → schemasOfJson? elements = some schemas →
    schemasToJson schemas = elements
  | [], schemas, h => by
    cases h
    rfl
  | .obj entries :: rest, schemas, h => by
    obtain ⟨fields, hFields, hRest⟩ := Option.bind_eq_some_iff.mp h
    obtain ⟨others, hOthers, hSchemas⟩ := Option.bind_eq_some_iff.mp hRest
    cases hSchemas
    rw [schemasToJson, fieldsToJson_of_ofJson? entries fields hFields,
      schemasToJson_of_ofJson? rest others hOthers]
  | .null :: _, _, h | .bool _ :: _, _, h | .num _ :: _, _, h | .str _ :: _, _, h
  | .arr _ :: _, _, h => nomatch h

theorem fieldsToJson_of_ofJson? : (entries : List (String × Json)) →
    (fields : List (String × Shape)) → fieldsOfJson? entries = some fields →
    fieldsToJson fields = entries
  | [], fields, h => by
    cases h
    rfl
  | (name, json) :: rest, fields, h => by
    obtain ⟨shape, hShape, hRest⟩ := Option.bind_eq_some_iff.mp h
    obtain ⟨others, hOthers, hFields⟩ := Option.bind_eq_some_iff.mp hRest
    cases hFields
    rw [fieldsToJson, toJson_of_ofJson? json shape hShape,
      fieldsToJson_of_ofJson? rest others hOthers]

end

theorem names_fieldsToJson (fields : List (String × Shape)) :
    Entries.names (fieldsToJson fields) = Entries.names fields := by
  induction fields with
  | nil => rfl
  | cons field rest ih => rw [fieldsToJson, Entries.names_cons, Entries.names_cons, ih]

mutual

theorem distinct_of_toJson : (shape : Shape) → shape.toJson.Distinct → shape.Distinct
  | .tag _, _ => trivial
  | .union _, _ => trivial
  | .nested schemas, h => distinctSchemas_of_toJson schemas h

theorem distinctSchemas_of_toJson : (schemas : List (List (String × Shape))) →
    Json.DistinctElements (schemasToJson schemas) → DistinctSchemas schemas
  | [], _ => trivial
  | fields :: rest, h =>
    ⟨⟨names_fieldsToJson fields ▸ h.1.1, distinctAll_of_toJson fields h.1.2⟩,
      distinctSchemas_of_toJson rest h.2⟩

theorem distinctAll_of_toJson : (fields : List (String × Shape)) →
    Json.DistinctEntries (fieldsToJson fields) → DistinctAll fields
  | [], _ => trivial
  | (_, shape) :: rest, h => ⟨distinct_of_toJson shape h.1, distinctAll_of_toJson rest h.2⟩

end

mutual

theorem merged_of_distinct : (shape : Shape) → shape.Distinct → shape.merged = shape
  | .tag _, _ => rfl
  | .union _, _ => rfl
  | .nested schemas, h => by rw [merged, mergedSchemas_of_distinct schemas h]

theorem mergedSchemas_of_distinct : (schemas : List (List (String × Shape))) →
    DistinctSchemas schemas → mergedSchemas schemas = schemas
  | [], _ => rfl
  | fields :: rest, h => by
    rw [mergedSchemas, mergedFields_of_distinct fields h.1.2, Entries.ofList_of_nodup h.1.1,
      mergedSchemas_of_distinct rest h.2]

theorem mergedFields_of_distinct : (fields : List (String × Shape)) → DistinctAll fields →
    mergedFields fields = fields
  | [], _ => rfl
  | (name, shape) :: rest, h => by
    rw [mergedFields, merged_of_distinct shape h.1, mergedFields_of_distinct rest h.2]

end

end Shape

namespace Literal

theorem ofFields_of_distinct {fields : List (String × Shape)}
    (h : (Entries.names fields).Nodup ∧ Shape.DistinctAll fields) :
    ofFields fields = { fields, distinct := h } := by
  rw [ofFields, mk.injEq, Shape.mergedFields_of_distinct fields h.2, Entries.ofList_of_nodup h.1]

/-- Data is the literal that it is read as. -/
theorem toJson_of_ofJson? {json : Json} {literal : Literal} (h : ofJson? json = some literal)
    (hDistinct : json.Distinct) : literal.toJson = json := by
  cases json with
  | obj entries =>
    obtain ⟨fields, hFields, rfl⟩ := Option.map_eq_some_iff.mp h
    obtain rfl := Shape.fieldsToJson_of_ofJson? entries fields hFields
    rw [ofFields_of_distinct ⟨Shape.names_fieldsToJson fields ▸ hDistinct.1,
      Shape.distinctAll_of_toJson fields hDistinct.2⟩, toJson]
  | null | bool _ | num _ | str _ | arr _ => cases h

end Literal

end Conform
