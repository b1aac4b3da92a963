import Conform.Proofs.Failures

/-! # The limit on the depth

A coercion under a limit on the depth is the coercion without it, or else the limit cut it off. It is
cut off exactly if the coercion without a limit comes to a record that lies deeper than the limit, and
that takes a schema that nests deeper.
-/

set_option autoImplicit false

namespace Conform

/-- Whatever depth the second limit forbids the first forbids. Zero stands for no limit. -/
def Wider (limit wider : Nat) : Prop :=
  ∀ level, wider ≠ 0 ∧ wider < level → limit ≠ 0 ∧ limit < level

theorem wider_zero (limit : Nat) : Wider limit 0 := fun _ h => absurd rfl h.1

theorem wider_of_le {limit wider : Nat} (hLimit : 1 ≤ limit) (h : limit ≤ wider) :
    Wider limit wider := by
  intro level hLevel
  omega

namespace Walk

section Limited

variable {α β : Type} {walk wide : Walk α} {next wideNext : α → Walk β} {mode : Mode}
  {limit wider : Nat}

/-- The first walk is the second, or else a limit on the depth cut it off. -/
def Limited (walk wide : Walk α) : Prop :=
  walk = wide ∨ ∃ path, walk = .error { path, reason := .depthExceeded }

theorem Limited.refl (walk : Walk α) : Limited walk walk := Or.inl rfl

theorem Limited.bind (h : Limited walk wide)
    (hNext : ∀ value, Limited (next value) (wideNext value)) :
    Limited (walk >>= next) (wide >>= wideNext) := by
  rcases h with rfl | ⟨path, rfl⟩
  · cases walk with
    | ok value => exact hNext value
    | error stop => exact Or.inl rfl
  · exact Or.inr ⟨path, rfl⟩

theorem Limited.under (token : String) (h : Limited walk wide) :
    Limited (under token walk) (under token wide) := by
  rcases h with rfl | ⟨path, rfl⟩
  · exact .refl _
  · exact Or.inr ⟨token :: path, rfl⟩

theorem Limited.elementsFrom {walk wide : Json → Walk Json}
    (h : ∀ element, Limited (walk element) (wide element)) (elements : List Json) (index : Nat) :
    Limited (elementsFrom walk index elements) (elementsFrom wide index elements) := by
  induction elements generalizing index with
  | nil => exact .refl _
  | cons element rest ih =>
    apply ((h element).under (toString index)).bind
    intro value
    apply (ih (index + 1)).bind
    intro values
    exact .refl _

theorem Limited.elements {walk wide : Json → Walk Json}
    (h : ∀ element, Limited (walk element) (wide element)) (elements? : Option (List Json)) :
    Limited (elements walk elements?) (elements wide elements?) := by
  cases elements? with
  | none => exact .refl _
  | some elements =>
    apply (Limited.elementsFrom h elements 0).bind
    intro values
    exact .refl _

theorem Limited.record (hWider : Wider limit wider) {level : Nat}
    {fields wideFields : Record → Walk Record}
    (h : ∀ entries, Limited (fields entries) (wideFields entries)) (input : Json) :
    Limited (record { mode, maxDepth := limit } level fields input)
      (record { mode, maxDepth := wider } level wideFields input) := by
  rw [Walk.record, Walk.record]
  by_cases hLimit : limit ≠ 0 ∧ limit < level
  · rw [if_pos hLimit]
    exact Or.inr ⟨[], rfl⟩
  · -- Neither limit forbids the level, so both go on to look at the input.
    rw [if_neg hLimit, if_neg fun hWide => hLimit (hWider level hWide)]
    cases input.toRecord? with
    | some entries => exact h entries
    | none => exact .refl _

mutual

theorem form_limited (hWider : Wider limit wider) : (f : Form) → (level : Nat) → (value : Json) →
    Limited (form { mode, maxDepth := limit } f level value)
      (form { mode, maxDepth := wider } f level value)
  | .scalar tag, level, value => by
    unfold form
    exact .refl _
  | .union kinds, level, value => by
    unfold form
    exact .refl _
  | .nested fields, level, value => by
    unfold form
    apply Limited.elements
    intro item
    apply (Limited.record hWider (fieldsOf_limited hWider fields (level + 1)) item).bind
    intro out
    exact .refl _

theorem fieldsOf_limited (hWider : Wider limit wider) : (fields : List (String × Form)) →
    (level : Nat) → (entries : Record) →
    Limited (fieldsOf { mode, maxDepth := limit } fields level entries)
      (fieldsOf { mode, maxDepth := wider } fields level entries)
  | [], level, entries => .refl _
  | (name, f) :: rest, level, entries => by
    unfold fieldsOf
    cases entries.lookup name with
    | some value =>
      apply ((form_limited hWider f level value).under name).bind
      intro out
      apply (fieldsOf_limited hWider rest level entries).bind
      intro outs
      exact .refl _
    | none =>
      cases f.isOptional with
      | true => exact fieldsOf_limited hWider rest level entries
      | false => exact .refl _

end

theorem Limited.stop? (h : Limited walk wide) :
    walk.stop? = wide.stop? ∨ ∃ path, walk.stop? = some { path, reason := .depthExceeded } := by
  rcases h with rfl | ⟨path, rfl⟩
  · exact Or.inl rfl
  · exact Or.inr ⟨path, rfl⟩

end Limited

end Walk

namespace Place

/-- The places that a coercion comes to. It comes to a part of a place that is not refused itself, after
it has coerced every part before. -/
inductive Visits (options : Options) : Place → Path → Place → Prop
  | here {place : Place} : Visits options place [] place
  | inside {place part found : Place} {front back : Entries Place} {token : String} {path : Path} :
      place.refusal? options = none → place.parts options.mode = front ++ (token, part) :: back →
      (∀ entry ∈ front, entry.2.failure? options = none) → Visits options part path found →
      Visits options place (token :: path) found

/-- The limit on the depth cuts the coercion of a place off. -/
def Exceeds (options : Options) (place : Place) : Prop :=
  ∃ path, place.stop? options = some { path, reason := .depthExceeded }

section Visits

variable {options : Options} {mode : Mode} {limit wider : Nat} {place part found : Place}
  {path : Path} {reason : Reason}

theorem stop?_limited (hWider : Wider limit wider) (place : Place) :
    place.stop? { mode, maxDepth := limit } = place.stop? { mode, maxDepth := wider } ∨
      place.Exceeds { mode, maxDepth := limit } := by
  cases place with
  | record level fields value =>
    exact (Walk.Limited.record hWider (Walk.fieldsOf_limited hWider fields (level + 1)) value).stop?
  | field level form value => exact (Walk.form_limited hWider form level value).stop?
  | element kind value => exact Or.inl rfl
  | missing form => exact Or.inl rfl

theorem stop?_eq_none_of_limited (hWider : Wider limit wider)
    (h : place.stop? { mode, maxDepth := limit } = none) :
    place.stop? { mode, maxDepth := wider } = none := by
  rcases stop?_limited hWider place with hSame | ⟨_, hStop⟩
  · exact hSame ▸ h
  · rw [h] at hStop
    cases hStop

/-- A path along which a coercion goes leads to the place to which it comes. -/
theorem Visits.at?_eq (h : place.Visits options path found) (hDistinct : place.Distinct) :
    place.at? options.mode path = some found := by
  induction h with
  | here => rfl
  | inside _ hParts _ _ ih =>
    exact at?_cons.mpr ⟨_, (lookup_parts hDistinct hParts).1, ih (distinct_of_parts hDistinct hParts).2⟩

/-- A coercion stops where it comes to a place that is refused itself. -/
theorem stops_iff_exists_visits : place.Stops options path reason ↔
    ∃ found, place.Visits options path found ∧ found.refusal? options = some reason := by
  constructor
  · intro h
    induction h with
    | here hRefusal => exact ⟨_, .here, hRefusal⟩
    | inside hNone hParts hFront _ ih =>
      obtain ⟨found, hVisits, hRefusal⟩ := ih
      refine ⟨found, .inside hNone hParts ?_ hVisits, hRefusal⟩
      exact fun entry hEntry => failure?_eq_none_iff.mpr (hFront entry hEntry)
  · rintro ⟨found, hVisits, hRefusal⟩
    induction hVisits with
    | here => exact .here hRefusal
    | inside hNone hParts hFront _ ih =>
      refine .inside hNone hParts ?_ (ih hRefusal)
      exact fun entry hEntry => failure?_eq_none_iff.mp (hFront entry hEntry)

theorem refusal?_eq_none_of_limited (hWider : Wider limit wider)
    (h : place.refusal? { mode, maxDepth := limit } = none) :
    place.refusal? { mode, maxDepth := wider } = none := by
  cases place with
  | record level fields value =>
    rw [refusal?] at h ⊢
    by_cases hLimit : limit ≠ 0 ∧ limit < level + 1
    · rw [if_pos hLimit] at h
      cases h
    · rw [if_neg hLimit] at h
      rw [if_neg fun hWide => hLimit (hWider _ hWide)]
      exact h
  | field level form value => cases form <;> exact h
  | element kind value => exact h
  | missing form => exact h

/-- Under a wider limit a coercion comes to the same places and maybe to others. -/
theorem Visits.mono (hWider : Wider limit wider)
    (h : place.Visits { mode, maxDepth := limit } path found) :
    place.Visits { mode, maxDepth := wider } path found := by
  induction h with
  | here => exact .here
  | inside hNone hParts hFront _ ih =>
    refine .inside (refusal?_eq_none_of_limited hWider hNone) hParts ?_ ih
    intro entry hEntry
    exact failure?_eq_none_iff.mpr
      (stop?_eq_none_of_limited hWider (failure?_eq_none_iff.mp (hFront entry hEntry)))

/-- A place with parts can only be refused for its depth. -/
theorem refusal?_of_mem_parts (options : Options) {entry : String × Place}
    (h : entry ∈ place.parts options.mode) :
    place.refusal? options = none ∨ place.refusal? options = some .depthExceeded := by
  cases partOf_of_mem h with
  | field _ _ | missing _ _ =>
    rw [refusal?]
    split
    · exact Or.inr rfl
    · exact Or.inl rfl
  | item _ => exact Or.inl rfl
  | element hArray hElements _ => exact Or.inl (by rw [refusal?, if_pos hArray, hElements]; rfl)

theorem Exceeds.firstStop? {front back : Entries Place} {token : String}
    (h : part.Exceeds options)
    (hFront : ∀ entry ∈ front, entry.2.stop? options = none ∨ entry.2.Exceeds options) :
    ∃ path, firstStop? options (front ++ (token, part) :: back) =
      some { path, reason := .depthExceeded } := by
  induction front with
  | nil =>
    obtain ⟨path, hPath⟩ := h
    exact ⟨token :: path, by rw [List.nil_append, firstStop?_cons, hPath]; rfl⟩
  | cons entry rest ih =>
    obtain ⟨hEntry, hRest⟩ := List.forall_mem_cons.mp hFront
    obtain ⟨first, other⟩ := entry
    rw [List.cons_append, firstStop?_cons]
    rcases hEntry with hNone | ⟨path, hPath⟩
    · rw [hNone]
      exact ih hRest
    · rw [hPath]
      exact ⟨first :: path, rfl⟩

/-- If the coercion without a limit comes to a place where the limit cuts off, the limited coercion is cut
off there or before. -/
theorem Visits.exceeds (h : place.Visits { mode, maxDepth := 0 } path found)
    (hFound : found.Exceeds { mode, maxDepth := limit }) :
    place.Exceeds { mode, maxDepth := limit } := by
  induction h with
  | here => exact hFound
  | @inside place part found front back token path _ hParts hFront _ ih =>
    have hMem : (token, part) ∈ place.parts mode := by
      rw [show place.parts mode = _ from hParts]
      exact List.mem_append_right _ List.mem_cons_self
    -- What was coerced before this part is coerced under the limit too, unless the limit cuts it off.
    have hFirst : ∀ entry ∈ front, entry.2.stop? { mode, maxDepth := limit } = none ∨
        entry.2.Exceeds { mode, maxDepth := limit } := by
      intro entry hEntry
      rw [← failure?_eq_none_iff.mp (hFront entry hEntry)]
      exact stop?_limited (wider_zero limit) entry.2
    rw [Exceeds, stop?_eq]
    rcases refusal?_of_mem_parts { mode, maxDepth := limit } hMem with hNone | hDepth
    · rw [hNone, show place.parts mode = _ from hParts]
      exact (ih hFound).firstStop? hFirst
    · exact ⟨[], by rw [hDepth]; rfl⟩

theorem exceeds_iff (hLimit : limit ≠ 0) : place.Exceeds { mode, maxDepth := limit } ↔
    ∃ path level fields value, place.Visits { mode, maxDepth := 0 } path (.record level fields value) ∧
      limit < level + 1 := by
  constructor
  · rintro ⟨path, hStop⟩
    obtain ⟨found, hVisits, hRefusal⟩ := stops_iff_exists_visits.mp (stop?_eq_some_iff.mp hStop)
    obtain ⟨level, fields, value, rfl, _, hDeep⟩ := refusal?_eq_depthExceeded_iff.mp hRefusal
    exact ⟨path, level, fields, value, hVisits.mono (wider_zero limit), hDeep⟩
  · rintro ⟨path, level, fields, value, hVisits, hDeep⟩
    exact hVisits.exceeds ⟨[], stop?_eq_some_iff.mpr (.here (refusal?_eq_depthExceeded_iff.mpr
      ⟨level, fields, value, rfl, hLimit, hDeep⟩))⟩

end Visits

end Place

namespace Form

mutual

/-- How many records lie within one another in a form. -/
def depth : Form → Nat
  | .nested fields => depthOf fields + 1
  | _ => 0

def depthOf : List (String × Form) → Nat
  | [] => 0
  | (_, form) :: rest => max form.depth (depthOf rest)

end

theorem depth_le_depthOf {fields : List (String × Form)} {name : String} {form : Form}
    (h : (name, form) ∈ fields) : form.depth ≤ depthOf fields := by
  induction fields with
  | nil => cases h
  | cons field rest ih =>
    rw [depthOf]
    rcases List.mem_cons.mp h with rfl | hRest
    · exact Nat.le_max_left _ _
    · exact Nat.le_trans (ih hRest) (Nat.le_max_right _ _)

end Form

/-- How many records lie within one another, the record of the input included. -/
def Schema.depth (schema : Schema) : Nat := schema.form.depth

namespace Place

/-- No record at a place or within it can lie deeper than a bound. -/
def Bounded (bound : Nat) : Place → Prop
  | .record level fields _ => level + (Form.nested fields).depth ≤ bound
  | .field level form _ => level + form.depth ≤ bound
  | .element _ _ | .missing _ => True

theorem bounded_of_mem_parts {mode : Mode} {bound : Nat} (place : Place) (entry : String × Place)
    (h : place.Bounded bound) (hMem : entry ∈ place.parts mode) : entry.2.Bounded bound := by
  cases partOf_of_mem hMem with
  | field hField _ =>
    have hDepth := Form.depth_le_depthOf hField
    simp only [Bounded, Form.depth] at h ⊢
    omega
  | missing _ _ | element _ _ _ => trivial
  | item _ => exact h

end Place

namespace Schema

section Depth

variable {schema : Schema} {input : Json} {mode : Mode} {limit wider : Nat}

theorem coerce_limited (schema : Schema) (input : Json) (mode : Mode) (hWider : Wider limit wider) :
    schema.coerce input { mode, maxDepth := limit } = .faulted .depthExceeded ∨
      schema.coerce input { mode, maxDepth := limit } =
        schema.coerce input { mode, maxDepth := wider } := by
  have hWalk : Walk.Limited (schema.walk { mode, maxDepth := limit } input)
      (schema.walk { mode, maxDepth := wider } input) :=
    Walk.Limited.record hWider (Walk.fieldsOf_limited hWider schema.fields 1) input
  rw [coerce_eq_outcome, coerce_eq_outcome]
  rcases hWalk with hSame | ⟨path, hStop⟩
  · exact Or.inr (by rw [hSame])
  · exact Or.inl (by rw [hStop]; rfl)

theorem coerce_eq_depthExceeded_iff {options : Options} :
    schema.coerce input options = .faulted .depthExceeded ↔ (schema.root input).Exceeds options := by
  rw [coerce_eq_faulted_iff]
  constructor
  · rintro ⟨path, reason, hStops, hReason⟩
    cases reason with
    | depthExceeded => exact ⟨path, Place.stop?_eq_some_iff.mpr hStops⟩
    | rejected | notScalar => cases hReason
  · rintro ⟨path, hStop⟩
    exact ⟨path, .depthExceeded, Place.stop?_eq_some_iff.mp hStop, rfl⟩

theorem level_le_depth {options : Options} {path : Path} {level : Nat}
    {fields : List (String × Form)} {value : Json}
    (h : (schema.root input).Visits options path (.record level fields value)) :
    level + 1 ≤ schema.depth := by
  have hRoot : (schema.root input).Bounded schema.depth := by
    simp only [root, Place.Bounded, depth, form]
    omega
  have hRecord := Place.at?_invariant Place.bounded_of_mem_parts hRoot
    (h.at?_eq (schema.distinct_root input))
  simp only [Place.Bounded, Form.depth] at hRecord
  omega

/-- A limit on the depth changes nothing until it cuts a coercion off. The limit does so exactly if the
coercion without it comes to a record that lies deeper, where the record of the input lies at level
one. -/
theorem depth_limit_transparent (schema : Schema) (input : Json) (mode : Mode) (limit : Nat)
    (hLimit : 1 ≤ limit) :
    (schema.coerce input { mode, maxDepth := limit } = .faulted .depthExceeded ∨
      schema.coerce input { mode, maxDepth := limit } =
        schema.coerce input { mode, maxDepth := 0 }) ∧
    (schema.coerce input { mode, maxDepth := limit } ≠ .faulted .depthExceeded →
      ∀ wider, limit ≤ wider → schema.coerce input { mode, maxDepth := wider } =
        schema.coerce input { mode, maxDepth := limit }) ∧
    (schema.coerce input { mode, maxDepth := limit } = .faulted .depthExceeded ↔
      ∃ path level fields value,
        (schema.root input).Visits { mode, maxDepth := 0 } path (.record level fields value) ∧
          limit < level + 1) ∧
    (schema.depth ≤ limit →
      schema.coerce input { mode, maxDepth := limit } ≠ .faulted .depthExceeded) := by
  have hExceeded : schema.coerce input { mode, maxDepth := limit } = .faulted .depthExceeded ↔
      ∃ path level fields value,
        (schema.root input).Visits { mode, maxDepth := 0 } path (.record level fields value) ∧
          limit < level + 1 :=
    coerce_eq_depthExceeded_iff.trans (Place.exceeds_iff (Nat.ne_of_gt hLimit))
  refine ⟨coerce_limited schema input mode (wider_zero limit), ?_, hExceeded, ?_⟩
  · intro hCoerce wider hWider
    rcases coerce_limited schema input mode (wider_of_le hLimit hWider) with hCut | hSame
    · exact absurd hCut hCoerce
    · exact hSame.symm
  · intro hDepth hCut
    obtain ⟨path, level, fields, value, hVisits, hDeep⟩ := hExceeded.mp hCut
    have hLevel := level_le_depth hVisits
    omega

def stackSchema : Schema :=
  .ofFields [("a", .nested [("b", .nested [("c", .scalar { kind := .int })])])]

def stackInput : Json :=
  .obj [("a", .arr [.obj [("b", .arr [])], .obj [("b", .arr [.null])]])]

-- The null lies at level three, where the limit comes before the question whether it is an object. With
-- three levels the schema never meets its limit.
theorem depth_limit_transparent_stack :
    1 ≤ 2 ∧ stackSchema.coerce stackInput { maxDepth := 2 } = .faulted .depthExceeded ∧
    (∃ path level fields value,
      (stackSchema.root stackInput).Visits { maxDepth := 0 } path (.record level fields value) ∧
        2 < level + 1) ∧
    stackSchema.coerce stackInput { maxDepth := 3 } = .rejected ["a", "1", "b", "0"] ∧
    (∀ wider, 3 ≤ wider →
      stackSchema.coerce stackInput { maxDepth := wider } = .rejected ["a", "1", "b", "0"]) ∧
    stackSchema.depth ≤ 3 ∧
    stackSchema.coerce stackInput { maxDepth := 3 } ≠ .faulted .depthExceeded := by
  have hCut : stackSchema.coerce stackInput { maxDepth := 2 } = .faulted .depthExceeded := by
    decide +kernel
  have hReject : stackSchema.coerce stackInput { maxDepth := 3 } =
      .rejected ["a", "1", "b", "0"] := by decide +kernel
  have hDepth : stackSchema.depth ≤ 3 := by decide +kernel
  have hTwo := depth_limit_transparent stackSchema stackInput .strict 2 (by decide)
  have hThree := depth_limit_transparent stackSchema stackInput .strict 3 (by decide)
  refine ⟨by decide, hCut, hTwo.2.2.1.mp hCut, hReject, ?_, hDepth, hThree.2.2.2 hDepth⟩
  intro wider hWider
  rw [hThree.2.1 (hThree.2.2.2 hDepth) wider hWider, hReject]

end Depth

end Schema

end Conform
