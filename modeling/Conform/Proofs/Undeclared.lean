import Conform.Proofs.Pruning

/-! # Undeclared data

What a schema does not declare cannot be told from an outcome, nor can the order of keys. Two inputs
agree if they differ in nothing else, at any depth. They agree exactly if their prunings are the same,
and a coercion sees no more of an input than its pruning.
-/

set_option autoImplicit false

namespace Conform

namespace Json

/-- The same value, or two records that are related. -/
inductive RecordsAgree (R : Record → Record → Prop) : Json → Json → Prop
  | same (value : Json) : RecordsAgree R value value
  | records {entries others : Record} : R entries others →
      RecordsAgree R (.obj entries) (.obj others)

/-- The same value, or two lists of one length with elements that are related one by one. -/
inductive ListsAgree (R : Json → Json → Prop) : Json → Json → Prop
  | same (value : Json) : ListsAgree R value value
  | lists {items others : List Json} : List.Forall₂ R items others →
      ListsAgree R (.arr items) (.arr others)

section Maps

variable {x y : Json}

theorem mapRecord_eq_iff {f : Record → Record} :
    x.mapRecord f = y.mapRecord f ↔ RecordsAgree (fun xs ys => f xs = f ys) x y := by
  constructor
  · intro h
    cases x with
    | obj entries =>
      cases y with
      | obj others => exact .records (Json.obj.inj h)
      | null | bool _ | num _ | str _ | arr _ => cases h
    | null | bool _ | num _ | str _ | arr _ =>
      cases y <;> cases h
      exact .same _
  · intro h
    cases h with
    | same => rfl
    | records h => exact congrArg Json.obj h

theorem mapElements_eq_iff {f : Json → Json} :
    x.mapElements f = y.mapElements f ↔ ListsAgree (fun x y => f x = f y) x y := by
  have hMap : ∀ items others : List Json,
      items.map f = others.map f ↔ List.Forall₂ (fun x y => f x = f y) items others := by
    intro items others
    rw [← List.forall₂_map_right_iff, ← List.forall₂_map_left_iff, List.forall₂_eq_eq_eq]
  constructor
  · intro h
    cases x with
    | arr items =>
      cases y with
      | arr others => exact .lists ((hMap items others).mp (Json.arr.inj h))
      | null | bool _ | num _ | str _ | obj _ => cases h
    | null | bool _ | num _ | str _ | obj _ =>
      cases y <;> cases h
      exact .same _
  · intro h
    cases h with
    | same => rfl
    | lists h => exact congrArg Json.arr ((hMap _ _).mpr h)

end Maps

end Json

namespace Form

mutual

/-- Leaves agree if they are equal, lists of records if their records agree one by one. -/
def Agrees : Form → Json → Json → Prop
  | .scalar _, x, y => x = y
  | .union _, x, y => x = y
  | .nested fields, x, y => Json.ListsAgree (Json.RecordsAgree (AgreesOn fields)) x y

/-- Under every declared name both records have values that agree, or both have none. Other names
and the order of all names do not count. -/
def AgreesOn : List (String × Form) → Record → Record → Prop
  | [], _, _ => True
  | (name, f) :: rest, entries, others =>
    Option.Rel (Agrees f) (entries.lookup name) (others.lookup name) ∧ AgreesOn rest entries others

end

mutual

/-- What agrees has the same pruning, and what has the same pruning agrees. -/
theorem prune_eq_iff : (f : Form) → f.Distinct → (x y : Json) →
    (f.prune x = f.prune y ↔ f.Agrees x y)
  | .scalar _, _, x, y => by rw [prune, prune, Agrees]
  | .union _, _, x, y => by rw [prune, prune, Agrees]
  | .nested fields, hDistinct, x, y => by
    rw [prune, prune, Agrees, Json.mapElements_eq_iff]
    have hFields : (fun xs ys => pruneFields fields xs = pruneFields fields ys) =
        AgreesOn fields := by
      funext xs ys
      exact propext (pruneFields_eq_iff fields hDistinct xs ys)
    simp only [Json.mapRecord_eq_iff, hFields]

theorem pruneFields_eq_iff : (fields : List (String × Form)) → (nested fields).Distinct →
    (xs ys : Record) → (pruneFields fields xs = pruneFields fields ys ↔ AgreesOn fields xs ys)
  | [], _, xs, ys => by simp [pruneFields, AgreesOn]
  | (name, f) :: rest, hDistinct, xs, ys => by
    obtain ⟨hNodup, hForm, hForms⟩ := hDistinct
    obtain ⟨hFresh, hRestNodup⟩ := List.nodup_cons.mp hNodup
    have hRest := pruneFields_eq_iff rest ⟨hRestNodup, hForms⟩ xs ys
    -- A key that the rest does not declare is not among the keys of its pruning.
    have hNe : ∀ value entries others, (name, value) :: entries ≠ pruneFields rest others := by
      intro value entries others h
      apply hFresh
      apply (names_pruneFields rest others).subset
      rw [← h]
      exact List.mem_cons_self
    rw [pruneFields, pruneFields, AgreesOn, ← hRest]
    cases xs.lookup name with
    | some x =>
      cases ys.lookup name with
      | some y => simp [prune_eq_iff f hForm x y]
      | none => simp [hNe]
    | none =>
      cases ys.lookup name with
      | some y => simp [(hNe _ _ _).symm]
      | none => simp

end

end Form

namespace Schema

variable {schema : Schema} {input other : Json}

/-- The inputs are records that agree on the fields of the schema, or they are the same. -/
def Agrees (schema : Schema) (input other : Json) : Prop :=
  Json.RecordsAgree (Form.AgreesOn schema.fields) input other

theorem prune_eq_iff : schema.prune input = schema.prune other ↔ schema.Agrees input other := by
  rw [prune, prune, Json.mapRecord_eq_iff, Agrees]
  simp only [Form.pruneFields_eq_iff schema.fields schema.distinct]

instance (schema : Schema) (input other : Json) : Decidable (schema.Agrees input other) :=
  decidable_of_iff _ prune_eq_iff

theorem coerce_prune (schema : Schema) (input : Json) (options : Options) :
    schema.coerce (schema.prune input) options = schema.coerce input options := by
  rw [coerce_eq_outcome, coerce_eq_outcome, walk, walk, prune,
    Walk.record_pruneFields schema.distinct]

/-- Inputs that agree have the same outcome: the same record with its keys in the same order, the
same path of a rejection, or the same fault. -/
theorem coerce_of_agrees (schema : Schema) (input other : Json) (options : Options)
    (h : schema.Agrees input other) :
    schema.coerce input options = schema.coerce other options := by
  calc
    schema.coerce input options = schema.coerce (schema.prune input) options :=
      (coerce_prune schema input options).symm
    _ = schema.coerce (schema.prune other) options := by rw [prune_eq_iff.mpr h]
    _ = schema.coerce other options := coerce_prune schema other options

def pupilsSchema : Schema :=
  .ofFields [("class", .scalar { kind := .string }),
    ("pupils", .nested [("name", .scalar { kind := .string }), ("mark", .scalar { kind := .int })])]

def pupilsInput : Json :=
  .obj [("class", .str "b"), ("pupils", .arr [.obj [("name", .str "Ann"), ("mark", .str "x")]])]

/-- The same pupils under more keys, which would fault or nest too deep if they were declared. -/
def crowdedInput : Json :=
  .obj [("pupils", .arr [.obj [("mark", .str "x"), ("seat", .arr [.obj []]), ("name", .str "Ann")]]),
    ("rooms", .arr [.obj [("desks", .arr [.obj [("legs", .null)]])]]), ("class", .str "b")]

-- The rejection names the same position in both, though it stands elsewhere in the second.
theorem coerce_of_agrees_pupils :
    pupilsSchema.Agrees pupilsInput crowdedInput ∧
    pupilsSchema.coerce pupilsInput { mode := .lenient, maxDepth := 2 } =
      .rejected ["pupils", "0", "mark"] ∧
    pupilsSchema.coerce crowdedInput { mode := .lenient, maxDepth := 2 } =
      .rejected ["pupils", "0", "mark"] := by
  have h : pupilsSchema.Agrees pupilsInput crowdedInput := by decide +kernel
  have hRejected : pupilsSchema.coerce pupilsInput { mode := .lenient, maxDepth := 2 } =
      .rejected ["pupils", "0", "mark"] := by decide +kernel
  exact ⟨h, hRejected, (coerce_of_agrees _ _ _ _ h).symm.trans hRejected⟩

end Schema

end Conform
