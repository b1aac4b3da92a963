import Conform.Coerce.Engine
import Conform.Proofs.Bind
import Conform.Proofs.Kinds
import Mathlib.Data.List.Forall2

/-! # Walks

A walk is the engine without its cursor: a function of the level of the enclosing record that gives a
value, or a stop whose path starts where the walk started. Each walk comes with the exact condition
under which it gives a value.
-/

set_option autoImplicit false

namespace Conform

structure Stop where
  path : Path := []
  reason : Reason
deriving DecidableEq, Repr

def Stop.under (token : String) (stop : Stop) : Stop := { stop with path := token :: stop.path }

abbrev Walk (α : Type) := Except Stop α

namespace Walk

def stop {α : Type} (reason : Reason) : Walk α := .error { reason }

def under {α : Type} (token : String) (walk : Walk α) : Walk α := walk.mapError (Stop.under token)

def read (mode : Mode) (kinds : List Kind) (value : Json) : Walk Json :=
  match Kind.readFirst? mode value kinds with
  | some out => .ok out
  | none => stop (Kind.refusal kinds)

def elementsFrom (walk : Json → Walk Json) : Nat → List Json → Walk (List Json)
  | _, [] => .ok []
  | index, element :: rest =>
    under (toString index) (walk element) >>= fun value =>
      elementsFrom walk (index + 1) rest >>= fun values => .ok (value :: values)

def elements (walk : Json → Walk Json) : Option (List Json) → Walk Json
  | some elements => elementsFrom walk 0 elements >>= fun values => .ok (.arr values)
  | none => stop .rejected

/-- The depth is looked at before the input. -/
def record (options : Options) (level : Nat) (fields : Record → Walk Record) (input : Json) :
    Walk Record :=
  if options.maxDepth ≠ 0 ∧ options.maxDepth < level then stop .depthExceeded
  else
    match input.toRecord? with
    | some entries => fields entries
    | none => stop .rejected

mutual

def form (options : Options) : Form → Nat → Json → Walk Json
  | .scalar tag, _, value =>
    if tag.array then elements (read options.mode [tag.kind]) (value.elements? options.mode)
    else read options.mode [tag.kind] value
  | .union kinds, _, value =>
    if value.isArray then stop .rejected else read options.mode kinds value
  | .nested fields, level, value =>
    elements (fun item =>
      record options (level + 1) (fieldsOf options fields (level + 1)) item >>= fun out =>
        .ok (.obj out)) value.toElements?

def fieldsOf (options : Options) : List (String × Form) → Nat → Record → Walk Record
  | [], _, _ => .ok []
  | (name, f) :: rest, level, entries =>
    match entries.lookup name with
    | some value =>
      under name (form options f level value) >>= fun out =>
        fieldsOf options rest level entries >>= fun outs => .ok ((name, out) :: outs)
    | none => if f.isOptional then fieldsOf options rest level entries else under name (stop .rejected)

end

end Walk

section Bind

variable {α β : Type}

@[simp] theorem Walk.ok_bind (value : α) (next : α → Walk β) :
    (Except.ok value : Walk α) >>= next = next value := rfl

@[simp] theorem Walk.error_bind (stop : Stop) (next : α → Walk β) :
    (Except.error stop : Walk α) >>= next = .error stop := rfl

@[simp] theorem Walk.under_ok (token : String) (value : α) :
    Walk.under token (.ok value) = .ok value := rfl

@[simp] theorem Walk.under_error (token : String) (stop : Stop) :
    Walk.under token (.error stop : Walk α) = .error (stop.under token) := rfl

end Bind

theorem Json.toElements?_eq_some_iff {value : Json} {elements : List Json} :
    value.toElements? = some elements ↔ value = .arr elements := by
  cases value <;> simp [toElements?]

theorem Json.elements?_strict_eq_some_iff {value : Json} {elements : List Json} :
    value.elements? .strict = some elements ↔ value = .arr elements := by
  cases value <;> simp [elements?]

theorem Json.toRecord?_eq_some_iff {value : Json} {entries : Record} :
    value.toRecord? = some entries ↔ value = .obj entries := by
  cases value <;> simp [toRecord?]

namespace Walk

section Success

variable {α β : Type} {options : Options} {mode : Mode}

theorem under_eq_ok_iff {token : String} {walk : Walk α} {out : α} :
    under token walk = .ok out ↔ walk = .ok out := by
  cases walk with
  | ok value => simp
  | error stop => simp

theorem read_eq_ok_iff {kinds : List Kind} {value out : Json} :
    read mode kinds value = .ok out ↔ Kind.FitsFirst mode value kinds out := by
  rw [read, ← Kind.readFirst?_eq_some_iff]
  cases Kind.readFirst? mode value kinds with
  | some other => simp
  | none => simp [stop]

theorem elementsFrom_eq_ok_iff {walk : Json → Walk Json} {index : Nat} {elements outs : List Json} :
    elementsFrom walk index elements = .ok outs ↔
      List.Forall₂ (fun element out => walk element = .ok out) elements outs := by
  induction elements generalizing index outs with
  | nil => simp [elementsFrom, eq_comm]
  | cons element rest ih =>
    simp only [elementsFrom, bind_eq_ok_iff, under_eq_ok_iff, ih, List.forall₂_cons_left_iff,
      Except.ok.injEq]
    constructor
    · rintro ⟨out, hOut, tail, hTail, rfl⟩
      exact ⟨out, tail, hOut, hTail, rfl⟩
    · rintro ⟨out, tail, hOut, hTail, rfl⟩
      exact ⟨out, hOut, tail, hTail, rfl⟩

theorem elements_eq_ok_iff {walk : Json → Walk Json} {elements? : Option (List Json)} {out : Json} :
    elements walk elements? = .ok out ↔ ∃ elements outs, elements? = some elements ∧
      out = .arr outs ∧ List.Forall₂ (fun element out => walk element = .ok out) elements outs := by
  cases elements? with
  | none => simp [elements, stop]
  | some elements =>
    simp only [Walk.elements, bind_eq_ok_iff, elementsFrom_eq_ok_iff, Except.ok.injEq]
    constructor
    · rintro ⟨outs, hOuts, rfl⟩
      exact ⟨elements, outs, rfl, rfl, hOuts⟩
    · rintro ⟨_, outs, hSome, rfl, hOuts⟩
      exact ⟨outs, Option.some.inj hSome ▸ hOuts, rfl⟩

theorem record_eq_ok_iff {level : Nat} {fields : Record → Walk Record} {input : Json}
    {out : Record} :
    record options level fields input = .ok out ↔
      ¬ (options.maxDepth ≠ 0 ∧ options.maxDepth < level) ∧
        ∃ entries, input = .obj entries ∧ fields entries = .ok out := by
  rw [record]
  split
  · rename_i hDepth
    exact ⟨nofun, fun h => absurd hDepth h.1⟩
  · rename_i hDepth
    cases hRecord : input.toRecord? with
    | some entries =>
      obtain rfl := Json.toRecord?_eq_some_iff.mp hRecord
      constructor
      · exact fun h => ⟨hDepth, entries, rfl, h⟩
      · rintro ⟨_, _, hEntries, h⟩
        cases hEntries
        exact h
    | none =>
      constructor
      · nofun
      · rintro ⟨_, entries, rfl, _⟩
        cases hRecord

theorem form_tag_eq_ok_iff {tag : Tag} {level : Nat} {value out : Json}
    (hArray : tag.array = false) :
    form options (.scalar tag) level value = .ok out ↔
      Kind.FitsFirst options.mode value [tag.kind] out := by
  rw [form, if_neg (by simp [hArray]), read_eq_ok_iff]

theorem form_list_eq_ok_iff {tag : Tag} {level : Nat} {value out : Json}
    (hArray : tag.array = true) :
    form options (.scalar tag) level value = .ok out ↔ ∃ elements outs,
      value.elements? options.mode = some elements ∧ out = .arr outs ∧
        List.Forall₂ (fun element out => Kind.FitsFirst options.mode element [tag.kind] out)
          elements outs := by
  rw [form, if_pos hArray, elements_eq_ok_iff]
  simp only [read_eq_ok_iff]

theorem form_union_eq_ok_iff {kinds : List Kind} {level : Nat} {value out : Json} :
    form options (.union kinds) level value = .ok out ↔
      value.isArray = false ∧ Kind.FitsFirst options.mode value kinds out := by
  rw [form]
  cases value.isArray with
  | true => simp [stop]
  | false => simp [read_eq_ok_iff]

theorem form_nested_eq_ok_iff {fields : List (String × Form)} {level : Nat} {value out : Json} :
    form options (.nested fields) level value = .ok out ↔ ∃ items outs,
      value = .arr items ∧ out = .arr outs ∧
        List.Forall₂ (fun item out => ∃ entries,
          record options (level + 1) (fieldsOf options fields (level + 1)) item = .ok entries ∧
            out = .obj entries) items outs := by
  rw [form, elements_eq_ok_iff]
  simp only [bind_eq_ok_iff, Json.toElements?_eq_some_iff, Except.ok.injEq, eq_comm (b := Json.obj _)]

theorem fieldsOf_cons_eq_ok_iff {name : String} {f : Form} {rest : List (String × Form)}
    {level : Nat} {entries outs : Record} :
    fieldsOf options ((name, f) :: rest) level entries = .ok outs ↔
      (∃ value out tail, entries.lookup name = some value ∧ form options f level value = .ok out ∧
        fieldsOf options rest level entries = .ok tail ∧ outs = (name, out) :: tail) ∨
      (entries.lookup name = none ∧ f.isOptional = true ∧
        fieldsOf options rest level entries = .ok outs) := by
  rw [fieldsOf]
  cases entries.lookup name with
  | some value =>
    simp only [bind_eq_ok_iff, under_eq_ok_iff, Except.ok.injEq]
    constructor
    · rintro ⟨out, hOut, tail, hTail, rfl⟩
      exact Or.inl ⟨value, out, tail, rfl, hOut, hTail, rfl⟩
    · rintro (⟨_, out, tail, hValue, hOut, hTail, rfl⟩ | ⟨hNone, _⟩)
      · exact ⟨out, Option.some.inj hValue ▸ hOut, tail, hTail, rfl⟩
      · cases hNone
  | none =>
    cases f.isOptional with
    | true => simp
    | false => simp [stop]

end Success

end Walk

end Conform
