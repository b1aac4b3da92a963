import Conform.Proofs.Cursor

/-! # Pruning

Pruning drops the undeclared keys of the records in a value, puts the declared ones into the order of
the schema and leaves everything else as it is. A coercion cannot tell a value from its pruning, and
whatever strict coercion accepts it returns as the pruning of its input.
-/

set_option autoImplicit false

namespace Conform

namespace Json

def mapElements (f : Json → Json) : Json → Json
  | .arr elements => .arr (elements.map f)
  | value => value

def mapRecord (f : Record → Record) : Json → Json
  | .obj entries => .obj (f entries)
  | value => value

end Json

namespace Form

mutual

/-- Leaves stay untouched, and the records of a list are pruned one by one. -/
def prune : Form → Json → Json
  | .scalar _, value => value
  | .union _, value => value
  | .nested fields, value => value.mapElements fun item => item.mapRecord (pruneFields fields)

/-- The declared keys that a record has, in the order of their declaration. -/
def pruneFields : List (String × Form) → Record → Record
  | [], _ => []
  | (name, f) :: rest, entries =>
    match entries.lookup name with
    | some value => (name, f.prune value) :: pruneFields rest entries
    | none => pruneFields rest entries

end

theorem names_pruneFields (fields : List (String × Form)) (entries : Record) :
    (Entries.names (pruneFields fields entries)).Sublist (Entries.names fields) := by
  induction fields with
  | nil => exact List.Sublist.refl _
  | cons field rest ih =>
    obtain ⟨name, f⟩ := field
    rw [pruneFields]
    cases entries.lookup name with
    | some value => exact ih.cons_cons name
    | none => exact ih.cons name

theorem lookup_pruneFields {fields : List (String × Form)} (hNodup : (Entries.names fields).Nodup)
    (entries : Record) {name : String} {f : Form} (hField : (name, f) ∈ fields) :
    (pruneFields fields entries).lookup name = (entries.lookup name).map f.prune := by
  induction fields with
  | nil => cases hField
  | cons field rest ih =>
    obtain ⟨first, g⟩ := field
    obtain ⟨hFresh, hRestNodup⟩ := List.nodup_cons.mp hNodup
    rw [pruneFields]
    rcases List.mem_cons.mp hField with hHead | hRest
    · cases hHead
      cases entries.lookup name with
      | some value => exact List.lookup_cons_self
      | none =>
        exact Entries.lookup_eq_none_iff.mpr fun hMem =>
          hFresh ((names_pruneFields rest entries).subset hMem)
    · have hNe : name ≠ first := by
        rintro rfl
        exact hFresh (Entries.mem_names_of_mem hRest)
      cases entries.lookup first with
      | some value =>
        rw [List.lookup_cons, beq_false_of_ne hNe]
        exact ih hRestNodup hRest
      | none => exact ih hRestNodup hRest

end Form

namespace Walk

section Irrelevance

variable {options : Options}

theorem elementsFrom_map {walk : Json → Walk Json} {f : Json → Json} (h : ∀ x, walk (f x) = walk x)
    (index : Nat) (elements : List Json) :
    elementsFrom walk index (elements.map f) = elementsFrom walk index elements := by
  induction elements generalizing index with
  | nil => rfl
  | cons element rest ih => rw [List.map_cons, elementsFrom, elementsFrom, h, ih]

theorem record_mapRecord {level : Nat} {fields : Record → Walk Record} {f : Record → Record}
    (h : ∀ entries, fields (f entries) = fields entries) (input : Json) :
    record options level fields (input.mapRecord f) = record options level fields input := by
  cases input with
  | obj entries => simp only [Json.mapRecord, record, Json.toRecord?, h]
  | null | bool _ | num _ | str _ | arr _ => rfl

mutual

/-- A walk cannot tell a value from its pruning. -/
theorem form_prune : (f : Form) → f.Distinct → (level : Nat) → (value : Json) →
    form options f level (f.prune value) = form options f level value
  | .scalar tag, _, level, value => by rw [Form.prune]
  | .union kinds, _, level, value => by rw [Form.prune]
  | .nested fields, hDistinct, level, value => by
    have hFields : ∀ entries, fieldsOf options fields (level + 1) (Form.pruneFields fields entries) =
        fieldsOf options fields (level + 1) entries := fun entries =>
      fieldsOf_pruned fields hDistinct.2 (level + 1) entries _ fun _ _ hField =>
        Form.lookup_pruneFields hDistinct.1 entries hField
    rw [Form.prune, form, form]
    cases value with
    | arr items =>
      simp only [Json.mapElements, Json.toElements?, elements]
      rw [elementsFrom_map]
      intro item
      rw [record_mapRecord hFields]
    | null | bool _ | num _ | str _ | obj _ => rfl

theorem fieldsOf_pruned : (fields : List (String × Form)) → Form.DistinctAll fields →
    (level : Nat) → (entries pruned : Record) →
    (∀ name f, (name, f) ∈ fields → pruned.lookup name = (entries.lookup name).map f.prune) →
    fieldsOf options fields level pruned = fieldsOf options fields level entries
  | [], _, level, entries, pruned, _ => rfl
  | (name, f) :: rest, hDistinct, level, entries, pruned, h => by
    have hRest := fieldsOf_pruned rest hDistinct.2 level entries pruned fun other g hField =>
      h other g (List.mem_cons_of_mem _ hField)
    rw [fieldsOf, fieldsOf, h name f List.mem_cons_self, hRest]
    cases entries.lookup name with
    | some value =>
      simp only [Option.map_some]
      rw [form_prune f hDistinct.1 level value]
    | none => rfl

end

theorem record_pruneFields {fields : List (String × Form)} (h : (Form.nested fields).Distinct)
    (level : Nat) (input : Json) :
    record options level (fieldsOf options fields level) (input.mapRecord (Form.pruneFields fields)) =
      record options level (fieldsOf options fields level) input := by
  apply record_mapRecord
  intro entries
  apply fieldsOf_pruned fields h.2
  intro name f hField
  exact Form.lookup_pruneFields h.1 entries hField

end Irrelevance

section Strict

variable {maxDepth : Nat}

/-- If fields give what pruning leaves of them, so does the record around them. -/
theorem obj_eq_mapRecord {options : Options} {level : Nat} {fields : Record → Walk Record}
    {f : Record → Record} (h : ∀ entries outs, fields entries = .ok outs → outs = f entries)
    {input : Json} {out : Record} (hOut : record options level fields input = .ok out) :
    .obj out = input.mapRecord f := by
  obtain ⟨_, entries, rfl, hFields⟩ := record_eq_ok_iff.mp hOut
  rw [h entries out hFields]
  rfl

mutual

/-- What a strict walk gives is the pruning of what it was given. -/
theorem eq_prune_of_form : (f : Form) → (level : Nat) → (value out : Json) →
    form { mode := .strict, maxDepth } f level value = .ok out → out = f.prune value
  | .scalar tag, level, value, out, h => by
    rw [Form.prune]
    cases hArray : tag.array with
    | false => exact ((form_tag_eq_ok_iff hArray).mp h).eq_of_strict.symm
    | true =>
      obtain ⟨elements, outs, hElements, rfl, hOuts⟩ := (form_list_eq_ok_iff hArray).mp h
      obtain rfl := Json.elements?_strict_eq_some_iff.mp hElements
      have hEq := hOuts.imp fun _ _ hOut => hOut.eq_of_strict
      rw [List.forall₂_eq_eq_eq] at hEq
      rw [hEq]
  | .union kinds, level, value, out, h => by
    rw [Form.prune]
    exact (form_union_eq_ok_iff.mp h).2.eq_of_strict.symm
  | .nested fields, level, value, out, h => by
    obtain ⟨items, outs, rfl, rfl, hOuts⟩ := form_nested_eq_ok_iff.mp h
    have hItem : ∀ item out, (∃ record, Walk.record { mode := .strict, maxDepth } (level + 1)
        (fieldsOf { mode := .strict, maxDepth } fields (level + 1)) item = .ok record ∧
          out = .obj record) → item.mapRecord (Form.pruneFields fields) = out := by
      rintro item _ ⟨record, hRecord, rfl⟩
      exact (obj_eq_mapRecord (eq_pruneFields_of_fieldsOf fields (level + 1)) hRecord).symm
    have hEq := List.forall₂_map_left_iff.mpr (hOuts.imp hItem)
    rw [List.forall₂_eq_eq_eq] at hEq
    rw [Form.prune, Json.mapElements, hEq]

theorem eq_pruneFields_of_fieldsOf : (fields : List (String × Form)) → (level : Nat) →
    (entries outs : Record) →
    fieldsOf { mode := .strict, maxDepth } fields level entries = .ok outs →
    outs = Form.pruneFields fields entries
  | [], level, entries, outs, h => by
    cases h
    rfl
  | (name, f) :: rest, level, entries, outs, h => by
    rw [Form.pruneFields]
    rcases fieldsOf_cons_eq_ok_iff.mp h with
      ⟨value, out, tail, hValue, hOut, hTail, rfl⟩ | ⟨hNone, _, hOuts⟩
    · rw [hValue, eq_prune_of_form f level value out hOut,
        eq_pruneFields_of_fieldsOf rest level entries tail hTail]
    · rw [hNone]
      exact eq_pruneFields_of_fieldsOf rest level entries outs hOuts

end

end Strict

end Walk

namespace Schema

/-- What is no object has nothing to be pruned. -/
def prune (schema : Schema) (input : Json) : Json := input.mapRecord (Form.pruneFields schema.fields)

/-- Strict coercion converts nothing: it returns the pruning of its input. -/
theorem eq_prune_of_strict (schema : Schema) (input : Json) (maxDepth : Nat) (record : Record)
    (h : schema.coerce input { mode := .strict, maxDepth } = .accepted record) :
    .obj record = schema.prune input := by
  rw [coerce_eq_accepted_iff, walk] at h
  exact Walk.obj_eq_mapRecord (Walk.eq_pruneFields_of_fieldsOf schema.fields 1) h

def pairsSchema : Schema :=
  .ofFields [("pairs", .nested [("a", .scalar { kind := .int }), ("b", .union [.int, .float])])]

-- The double one stays a double, though an integer is asked for, and the key c is not declared.
theorem eq_prune_of_strict_pairs :
    pairsSchema.coerce (.obj [("pairs", .arr [.obj
        [("b", .num (.float .one)), ("c", .null), ("a", .num (.float .one))]])]) {} =
      .accepted [("pairs", .arr [.obj [("a", .num (.float .one)), ("b", .num (.float .one))]])] ∧
    .obj [("pairs", .arr [.obj [("a", .num (.float .one)), ("b", .num (.float .one))]])] =
      pairsSchema.prune (.obj [("pairs", .arr [.obj
        [("b", .num (.float .one)), ("c", .null), ("a", .num (.float .one))]])]) := by
  have h : pairsSchema.coerce (.obj [("pairs", .arr [.obj
      [("b", .num (.float .one)), ("c", .null), ("a", .num (.float .one))]])]) {} =
    .accepted [("pairs", .arr [.obj [("a", .num (.float .one)), ("b", .num (.float .one))]])] := by
    decide +kernel
  exact ⟨h, eq_prune_of_strict _ _ 0 _ h⟩

end Schema

end Conform
