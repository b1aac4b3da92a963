import Conform.Proofs.Cursor
import Conform.Proofs.Place

/-! # Where coercion stops

A coercion stops at the first place in document order that is refused itself, and the path of the stop
leads there. This is one equation for every place and, followed along the path, a relation that
tells the stops of an input apart from everything that comes before them.
-/

set_option autoImplicit false

namespace Conform

/-- Where and why an action stops that starts without a path. -/
def Engine.failure? {α : Type} (action : Engine α) (options : Options) (depth : Nat) :
    Option (Failure × Path) :=
  match action.run { options, cursor := { depth } } with
  | .ok _ _ => none
  | .error failure state => some (failure, state.cursor.path)

def Walk.stop? {α : Type} : Walk α → Option Stop
  | .ok _ => none
  | .error stop => some stop

def Stop.failure (stop : Stop) : Failure × Path := (stop.reason.failure stop.path, stop.path)

namespace Place

/-- How the coercion of a place fails on its own, with the path from there. Only a required field fails
by being absent. -/
def failure? (options : Options) : Place → Option (Failure × Path)
  | .record level fields value =>
    (Engine.record (Engine.fieldsOf fields) value).failure? options level
  | .field level form value => (Engine.form form value).failure? options level
  | .element kind value => (Engine.scalar kind value).failure? options 0
  | .missing form => if form.isOptional then none else some (.rejected, [])

def stop? (options : Options) : Place → Option Stop
  | .record level fields value =>
    (Walk.record options (level + 1) (Walk.fieldsOf options fields (level + 1)) value).stop?
  | .field level form value => (Walk.form options form level value).stop?
  | .element kind value => (Walk.read options.mode [kind] value).stop?
  | .missing form => if form.isOptional then none else some { reason := .rejected }

/-- Why a place is refused itself, whatever its parts are. -/
def refusal? (options : Options) : Place → Option Reason
  | .record level _ value =>
    if options.maxDepth ≠ 0 ∧ options.maxDepth < level + 1 then some .depthExceeded
    else if value.toRecord?.isSome then none else some .rejected
  | .field _ (.scalar tag) value =>
    if tag.array then
      if (value.elements? options.mode).isSome then none else some .rejected
    else Kind.unread? options.mode [tag.kind] value
  | .field _ (.union kinds) value =>
    if value.isArray then some .rejected else Kind.unread? options.mode kinds value
  | .field _ (.nested _) value => if value.toElements?.isSome then none else some .rejected
  | .element kind value => Kind.unread? options.mode [kind] value
  | .missing form => if form.isOptional then none else some .rejected

end Place

namespace Walk

variable {α β : Type}

theorem stop?_eq_none_iff {walk : Walk α} : walk.stop? = none ↔ ∃ value, walk = .ok value := by
  cases walk <;> simp [stop?]

theorem stop?_bind {walk : Walk α} {next : α → Walk β} {rest : Option Stop}
    (h : ∀ value, (next value).stop? = rest) : (walk >>= next).stop? = walk.stop?.or rest := by
  cases walk with
  | ok value => exact h value
  | error stop => rfl

theorem stop?_map (f : α → β) (walk : Walk α) :
    (walk >>= fun value => .ok (f value)).stop? = walk.stop? := by
  cases walk <;> rfl

theorem stop?_under (token : String) (walk : Walk α) :
    (under token walk).stop? = walk.stop?.map (Stop.under token) := by
  cases walk <;> rfl

theorem stop?_read (mode : Mode) (kinds : List Kind) (value : Json) :
    (read mode kinds value).stop? =
      (Kind.unread? mode kinds value).map fun reason => { reason } := by
  rw [read, Kind.unread?]
  cases Kind.readFirst? mode value kinds <;> rfl

end Walk

theorem Engine.Follows.failure?_eq {α : Type} {action : Engine α} {walk : Options → Nat → Walk α}
    (h : action.Follows walk) (options : Options) (depth : Nat) :
    action.failure? options depth = (walk options depth).stop?.map Stop.failure := by
  have hRun := h { options, cursor := { depth } }
  dsimp only at hRun
  rw [Engine.failure?]
  cases hWalk : walk options depth with
  | ok value =>
    rw [hWalk] at hRun
    rw [show action.run { options, cursor := { depth } } = .ok value _ from hRun]
    rfl
  | error stop =>
    rw [hWalk] at hRun
    obtain ⟨_, hRun⟩ := hRun
    rw [hRun]
    rfl

namespace Place

section Stopping

variable {options : Options}

theorem failure?_eq (place : Place) :
    place.failure? options = (place.stop? options).map Stop.failure := by
  cases place with
  | record level fields value =>
    exact (Engine.record_follows (Engine.fieldsOf_follows fields) value).failure?_eq options level
  | field level form value => exact (Engine.form_follows form value).failure?_eq options level
  | element kind value => exact (Engine.scalar_follows kind value).failure?_eq options 0
  | missing form =>
    rw [failure?, stop?]
    cases form.isOptional <;> rfl

theorem failure?_eq_none_iff {place : Place} :
    place.failure? options = none ↔ place.stop? options = none := by
  rw [failure?_eq, Option.map_eq_none_iff]

/-- The first stop among parts, with the token of its part. -/
def firstStop? (options : Options) (parts : Entries Place) : Option Stop :=
  parts.findSome? fun part => (part.2.stop? options).map (Stop.under part.1)

theorem firstStop?_cons (token : String) (part : Place) (rest : Entries Place) :
    firstStop? options ((token, part) :: rest) =
      ((part.stop? options).map (Stop.under token)).or (firstStop? options rest) := by
  rw [firstStop?, List.findSome?_cons]
  cases part.stop? options <;> rfl

theorem stop?_elementsFrom {walk : Json → Walk Json} {place : Json → Place}
    (h : ∀ element, (place element).stop? options = (walk element).stop?) (elements : List Json)
    (index : Nat) :
    (Walk.elementsFrom walk index elements).stop? =
      firstStop? options (indexed place index elements) := by
  induction elements generalizing index with
  | nil => rfl
  | cons element rest ih =>
    have hRest : ∀ value, (Walk.elementsFrom walk (index + 1) rest >>= fun values =>
        .ok (value :: values)).stop? = firstStop? options (indexed place (index + 1) rest) := by
      intro value
      rw [Walk.stop?_map, ih]
    rw [Walk.elementsFrom, Walk.stop?_bind hRest, Walk.stop?_under, ← h, indexed_cons,
      firstStop?_cons]

theorem stop?_elements {walk : Json → Walk Json} {place : Json → Place}
    (h : ∀ element, (place element).stop? options = (walk element).stop?) (elements : List Json) :
    (Walk.elements walk (some elements)).stop? = firstStop? options (indexed place 0 elements) := by
  rw [Walk.elements, Walk.stop?_map, stop?_elementsFrom h]

theorem stop?_fieldsOf (level : Nat) (entries : Record) (fields : List (String × Form)) :
    (Walk.fieldsOf options fields level entries).stop? =
      firstStop? options (fields.map (declared level entries)) := by
  induction fields with
  | nil => rfl
  | cons field rest ih =>
    obtain ⟨name, f⟩ := field
    rw [Walk.fieldsOf, List.map_cons, declared, firstStop?_cons]
    cases entries.lookup name with
    | some value =>
      have hRest : ∀ out, (Walk.fieldsOf options rest level entries >>= fun outs =>
          .ok ((name, out) :: outs)).stop? = firstStop? options (rest.map (declared level entries)) := by
        intro out
        rw [Walk.stop?_map, ih]
      rw [Walk.stop?_bind hRest, Walk.stop?_under, stop?]
    | none =>
      rw [stop?]
      cases f.isOptional with
      | true => exact ih
      | false => rfl

/-- A place stops where it is refused itself, or else where the first of its parts stops. -/
theorem stop?_eq (place : Place) :
    place.stop? options = ((place.refusal? options).map fun reason => { reason }).or
      (firstStop? options (place.parts options.mode)) := by
  cases place with
  | record level fields value =>
    rw [stop?, refusal?, Walk.record]
    split
    · rfl
    · cases value with
      | obj entries => exact stop?_fieldsOf (level + 1) entries fields
      | null | bool _ | num _ | str _ | arr _ => rfl
  | field level form value =>
    cases form with
    | scalar tag =>
      rw [stop?, refusal?, parts, Walk.form]
      cases tag.array with
      | true =>
        cases value.elements? options.mode with
        | some elements => exact stop?_elements (fun _ => rfl) elements
        | none => rfl
      | false => exact (Walk.stop?_read _ _ _).trans (Option.or_none).symm
    | union kinds =>
      rw [stop?, refusal?, Walk.form]
      cases value.isArray with
      | true => rfl
      | false => exact (Walk.stop?_read _ _ _).trans (Option.or_none).symm
    | nested fields =>
      rw [stop?, refusal?, Walk.form]
      cases value with
      | arr items =>
        -- A record of a list is turned into a value, and that stops nowhere.
        have hItem : ∀ item, (record level fields item).stop? options =
            (Walk.record options (level + 1) (Walk.fieldsOf options fields (level + 1)) item >>=
              fun out => .ok (Json.obj out)).stop? := fun item => (Walk.stop?_map _ _).symm
        exact stop?_elements hItem items
      | null | bool _ | num _ | str _ | obj _ => rfl
  | element kind value =>
    rw [stop?, refusal?, Walk.stop?_read]
    exact (Option.or_none).symm
  | missing form =>
    rw [stop?, refusal?]
    cases form.isOptional <;> rfl

/-- A place that is refused itself stops there. Any other stops in the first of its parts that stops. -/
inductive Stops (options : Options) : Place → Path → Reason → Prop
  | here {place : Place} {reason : Reason} : place.refusal? options = some reason →
      Stops options place [] reason
  | inside {place part : Place} {front back : Entries Place} {token : String} {path : Path}
      {reason : Reason} : place.refusal? options = none →
      place.parts options.mode = front ++ (token, part) :: back →
      (∀ entry ∈ front, entry.2.stop? options = none) → Stops options part path reason →
      Stops options place (token :: path) reason

theorem firstStop?_eq_some_iff {parts : Entries Place} {stop : Stop} :
    firstStop? options parts = some stop ↔ ∃ front token part back inner,
      parts = front ++ (token, part) :: back ∧ (∀ entry ∈ front, entry.2.stop? options = none) ∧
        part.stop? options = some inner ∧ stop = inner.under token := by
  simp only [firstStop?, List.findSome?_eq_some_iff, Option.map_eq_none_iff, Option.map_eq_some_iff]
  constructor
  · rintro ⟨front, ⟨token, part⟩, back, hParts, ⟨inner, hInner, rfl⟩, hFront⟩
    exact ⟨front, token, part, back, inner, hParts, hFront, hInner, rfl⟩
  · rintro ⟨front, token, part, back, inner, hParts, hFront, hInner, rfl⟩
    exact ⟨front, (token, part), back, hParts, ⟨inner, hInner, rfl⟩, hFront⟩

/-- One step of a path: it ends at a place that is refused, or it enters the first part that stops. -/
theorem stop?_eq_some_step {place : Place} {path : Path} {reason : Reason} :
    place.stop? options = some { path, reason } ↔
      path = [] ∧ place.refusal? options = some reason ∨
      place.refusal? options = none ∧ ∃ front token part back rest, path = token :: rest ∧
        place.parts options.mode = front ++ (token, part) :: back ∧
        (∀ entry ∈ front, entry.2.stop? options = none) ∧
        part.stop? options = some { path := rest, reason } := by
  rw [stop?_eq]
  cases place.refusal? options with
  | some other => simp [eq_comm]
  | none =>
    rw [Option.map_none, Option.none_or, firstStop?_eq_some_iff]
    constructor
    · rintro ⟨front, token, part, back, inner, hParts, hFront, hInner, hStop⟩
      cases hStop
      exact Or.inr ⟨rfl, front, token, part, back, inner.path, rfl, hParts, hFront, hInner⟩
    · rintro (⟨_, hRefusal⟩ | ⟨_, front, token, part, back, rest, rfl, hParts, hFront, hInner⟩)
      · cases hRefusal
      · exact ⟨front, token, part, back, _, hParts, hFront, hInner, rfl⟩

theorem stop?_eq_some_iff {place : Place} {path : Path} {reason : Reason} :
    place.stop? options = some { path, reason } ↔ place.Stops options path reason := by
  constructor
  · intro h
    induction path generalizing place with
    | nil =>
      rcases stop?_eq_some_step.mp h with ⟨_, hRefusal⟩ | ⟨_, _, _, _, _, _, hPath, _⟩
      · exact .here hRefusal
      · cases hPath
    | cons token rest ih =>
      rcases stop?_eq_some_step.mp h with
        ⟨hPath, _⟩ | ⟨hNone, front, _, part, back, _, hPath, hParts, hFront, hInner⟩
      · cases hPath
      · cases hPath
        exact .inside hNone hParts hFront (ih hInner)
  · intro h
    induction h with
    | here hRefusal => exact stop?_eq_some_step.mpr (Or.inl ⟨rfl, hRefusal⟩)
    | inside hNone hParts hFront _ ih =>
      exact stop?_eq_some_step.mpr
        (Or.inr ⟨hNone, _, _, _, _, _, rfl, hParts, hFront, ih⟩)

end Stopping

section Paths

variable {options : Options} {place : Place} {path : Path} {reason : Reason}

/-- The path of a stop leads to the place that is refused. -/
theorem Stops.exists_at? (h : place.Stops options path reason) (hDistinct : place.Distinct) :
    ∃ found, place.at? options.mode path = some found ∧ found.refusal? options = some reason := by
  induction h with
  | here hRefusal => exact ⟨_, rfl, hRefusal⟩
  | inside _ hParts _ _ ih =>
    obtain ⟨hLookup, _⟩ := lookup_parts hDistinct hParts
    obtain ⟨found, hFound, hRefusal⟩ := ih (distinct_of_parts hDistinct hParts).2
    exact ⟨found, at?_cons.mpr ⟨_, hLookup, hFound⟩, hRefusal⟩

/-- Nothing stops before the path of a stop, at any of its levels. -/
theorem Stops.stop?_before (h : place.Stops options path reason) (hDistinct : place.Distinct)
    {front rest : Path} {token : String} (hPath : path = front ++ token :: rest) {found : Place}
    (hFound : place.at? options.mode front = some found) :
    ∀ part ∈ found.before options.mode token, part.stop? options = none := by
  induction h generalizing front with
  | here _ => cases front <;> cases hPath
  | inside _ hParts hFront _ ih =>
    obtain ⟨hLookup, hBefore⟩ := lookup_parts hDistinct hParts
    cases front with
    | nil =>
      cases hPath
      cases hFound
      rw [hBefore]
      intro part hPart
      obtain ⟨entry, hEntry, rfl⟩ := List.mem_map.mp hPart
      exact hFront entry hEntry
    | cons first front =>
      cases hPath
      obtain ⟨part, hPart, hFound⟩ := at?_cons.mp hFound
      obtain rfl := Option.some.inj (hLookup.symm.trans hPart)
      exact ih (distinct_of_parts hDistinct hParts).2 rfl hFound

theorem failure?_of_refusal (h : place.refusal? options = some reason) :
    place.failure? options = some (reason.failure [], []) := by
  rw [failure?_eq, stop?_eq_some_iff.mpr (.here h)]
  rfl

end Paths

end Place

namespace Schema

variable {schema : Schema} {input : Json} {options : Options}

theorem stop?_root (schema : Schema) (input : Json) (options : Options) :
    (schema.root input).stop? options = (schema.walk options input).stop? := rfl

theorem coerce_eq_rejected_iff {path : Path} :
    schema.coerce input options = .rejected path ↔
      (schema.root input).Stops options path .rejected := by
  rw [coerce_eq_outcome, ← Place.stop?_eq_some_iff, stop?_root]
  cases schema.walk options input with
  | ok record => simp [Walk.outcome, Walk.stop?]
  | error stop =>
    obtain ⟨other, reason⟩ := stop
    cases reason <;> simp [Walk.outcome, Walk.stop?, Reason.failure]

theorem coerce_eq_faulted_iff {cause : Fault} :
    schema.coerce input options = .faulted cause ↔ ∃ path reason,
      (schema.root input).Stops options path reason ∧ reason.failure path = .fault cause := by
  simp only [coerce_eq_outcome, ← Place.stop?_eq_some_iff, stop?_root]
  cases schema.walk options input with
  | ok record => simp [Walk.outcome, Walk.stop?]
  | error stop =>
    obtain ⟨other, reason⟩ := stop
    cases reason <;> simp [Walk.outcome, Walk.stop?, Reason.failure]

/-- Rows that list their integers, on which paths can be followed. -/
def rowsSchema : Schema :=
  .ofFields [("title", .scalar { kind := .string, optional := true }),
    ("rows", .nested [("cells", .scalar { kind := .int, array := true })])]

def rowsInput : Json := .obj [("rows", .arr [.obj [("cells", .str "1")], .obj [("cells", .str "2,x")]])]

end Schema

end Conform
