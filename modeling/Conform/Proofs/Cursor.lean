import Conform.Proofs.Walk

/-! # The cursor of the engine

The engine follows its walk. After a success the cursor is back where it was, after a failure the path
of the stop has been appended to its path. The options stay as they are. So the outcome of a coercion is
the outcome of the walk from the root.
-/

set_option autoImplicit false

namespace Conform

def Schema.walk (schema : Schema) (options : Options) (input : Json) : Walk Record :=
  Walk.record options 1 (Walk.fieldsOf options schema.fields 1) input

def Walk.outcome : Walk Record → Outcome
  | .ok record => .accepted record
  | .error stop =>
    match stop.reason.failure stop.path with
    | .rejected => .rejected stop.path
    | .fault cause => .faulted cause

namespace Engine

/-- How a walk that starts at the cursor ends. The depth after a failure is of no account. -/
def EndsAs {α : Type} (state : State) : Walk α → EStateM.Result Failure State α → Prop
  | .ok value, result => result = .ok value state
  | .error stop, result => ∃ depth, result =
      .error (stop.reason.failure (state.cursor.path ++ stop.path))
        { state with cursor := ⟨state.cursor.path ++ stop.path, depth⟩ }

def Follows {α : Type} (action : Engine α) (walk : Options → Nat → Walk α) : Prop :=
  ∀ state, EndsAs state (walk state.options state.cursor.depth) (action.run state)

section Steps

variable {α β : Type} {action : Engine α} {walk : Options → Nat → Walk α} {next : α → Engine β}
  {rest : α → Options → Nat → Walk β}

theorem Follows.ok (value : α) : (pure value : Engine α).Follows fun _ _ => .ok value :=
  fun _ => rfl

theorem Follows.refused (reason : Reason) (state : State) : EndsAs state
    (Walk.stop reason : Walk α) (.error (reason.failure state.cursor.path) state) := by
  refine ⟨state.cursor.depth, ?_⟩
  rw [List.append_nil]

theorem Follows.rejected : (throw .rejected : Engine α).Follows fun _ _ => Walk.stop .rejected :=
  fun state => Follows.refused .rejected state

theorem Follows.bind (h : action.Follows walk)
    (hNext : ∀ value, (next value).Follows (rest value)) :
    (action >>= next).Follows fun options level =>
      walk options level >>= fun value => rest value options level := by
  intro state
  have hc := h state
  rw [EStateM.run_bind]
  dsimp only
  cases hw : walk state.options state.cursor.depth with
  | ok value =>
    rw [hw] at hc
    rw [show action.run state = .ok value state from hc]
    exact hNext value state
  | error stop =>
    rw [hw] at hc
    obtain ⟨depth, hc⟩ := hc
    exact ⟨depth, by rw [hc]⟩

theorem Follows.under (token : String) (h : action.Follows walk)
    (hNext : ∀ value, (next value).Follows (rest value)) :
    Follows (do
      descend token
      let value ← action
      ascend
      next value) fun options level =>
        Walk.under token (walk options level) >>= fun value => rest value options level := by
  intro state
  have hc := h { state with cursor.path := state.cursor.path ++ [token] }
  dsimp only at hc ⊢
  cases hw : walk state.options state.cursor.depth with
  | ok value =>
    rw [hw] at hc
    have hRun : action.run { state with cursor.path := state.cursor.path ++ [token] } =
        .ok value _ := hc
    simpa [EStateM.run_bind, descend, ascend, moveCursor, hRun] using hNext value state
  | error stop =>
    rw [hw] at hc
    obtain ⟨depth, hRun⟩ := hc
    exact ⟨depth, by simp [EStateM.run_bind, descend, moveCursor, hRun, Stop.under]⟩

/-- A token that is taken off again without a walk leaves no trace. -/
theorem Follows.skipped (token : String) (h : action.Follows walk) :
    Follows (do
      descend token
      ascend
      action) walk := by
  intro state
  have hc := h state
  simpa [EStateM.run_bind, descend, ascend, moveCursor] using hc

theorem Follows.missing (token : String) :
    Follows (do
      descend token
      throw .rejected : Engine α) fun _ _ => Walk.under token (Walk.stop .rejected) :=
  fun state => ⟨state.cursor.depth, rfl⟩

end Steps

theorem coerceFirst_singleton (mode : Mode) (path : Path) (value : Json) (kind : Kind) :
    Kind.coerceFirst mode path value [kind] = kind.coerce mode path value := by
  rw [Kind.coerceFirst]
  split
  · rename_i h
    rw [h, Kind.coerceFirst]
  · rfl

theorem first_follows (kinds : List Kind) (value : Json) :
    Follows
      (do
        let state ← get
        ofExcept (Kind.coerceFirst state.options.mode state.cursor.path value kinds))
      fun options _ => Walk.read options.mode kinds value := by
  intro state
  rw [EStateM.run_bind, EStateM.run_get]
  dsimp only
  rw [Kind.coerceFirst_eq, Walk.read]
  cases Kind.readFirst? state.options.mode value kinds with
  | some out => rfl
  | none => exact Follows.refused _ state

theorem scalar_follows (kind : Kind) (value : Json) :
    (scalar kind value).Follows fun options _ => Walk.read options.mode [kind] value := by
  have h := first_follows [kind] value
  simp only [coerceFirst_singleton] at h
  exact h

theorem union_follows (kinds : List Kind) (value : Json) :
    (union kinds value).Follows fun options _ =>
      if value.isArray then Walk.stop .rejected else Walk.read options.mode kinds value := by
  simp only [union, Kind.coerceUnion]
  cases value.isArray with
  | true => exact fun state => Follows.refused .rejected state
  | false => exact first_follows kinds value

theorem elementsFrom_follows {coerce : Json → Engine Json} {walk : Json → Options → Nat → Walk Json}
    (h : ∀ element, (coerce element).Follows (walk element)) (elements : List Json) (index : Nat) :
    (elementsFrom coerce index elements).Follows fun options level =>
      Walk.elementsFrom (walk · options level) index elements := by
  induction elements generalizing index with
  | nil => exact Follows.ok []
  | cons element rest ih =>
    apply Follows.under (toString index) (h element)
    intro value
    apply Follows.bind (ih (index + 1))
    intro values
    exact Follows.ok (value :: values)

theorem elements_follows {coerce : Json → Engine Json} {walk : Json → Options → Nat → Walk Json}
    (h : ∀ element, (coerce element).Follows (walk element)) (elements? : Option (List Json)) :
    (elements coerce elements?).Follows fun options level =>
      Walk.elements (walk · options level) elements? := by
  cases elements? with
  | none => exact Follows.rejected
  | some elements =>
    apply Follows.bind (elementsFrom_follows h elements 0)
    intro values
    exact Follows.ok (Json.arr values)

/-- The mode is looked up once, before the first element. -/
theorem list_run (kind : Kind) (value : Json) (state : State) : (list kind value).run state =
    (elements (scalar kind) (value.elements? state.options.mode)).run state := rfl

theorem list_follows (kind : Kind) (value : Json) :
    (list kind value).Follows fun options _ =>
      Walk.elements (Walk.read options.mode [kind]) (value.elements? options.mode) := by
  intro state
  rw [list_run]
  exact elements_follows (scalar_follows kind) (value.elements? state.options.mode) state

theorem enter_run (state : State) : enter.run state =
    if state.options.maxDepth ≠ 0 ∧ state.options.maxDepth < state.cursor.depth + 1 then
      .error (.fault .depthExceeded) { state with cursor.depth := state.cursor.depth + 1 }
    else .ok () { state with cursor.depth := state.cursor.depth + 1 } := by
  show EStateM.run (if state.options.maxDepth ≠ 0 ∧
    state.options.maxDepth < state.cursor.depth + 1 then
      throw (Failure.fault .depthExceeded) else pure ()) _ = _
  split
  · rfl
  · rfl

theorem record_follows {fields : Record → Engine Record}
    {walk : Record → Options → Nat → Walk Record}
    (h : ∀ entries, (fields entries).Follows (walk entries)) (input : Json) :
    (record fields input).Follows fun options level =>
      Walk.record options (level + 1) (walk · options (level + 1)) input := by
  intro state
  dsimp only
  rw [Walk.record, record, EStateM.run_bind, enter_run]
  split
  · exact ⟨state.cursor.depth + 1, by rw [List.append_nil]; rfl⟩
  · cases input.toRecord? with
    | none => exact ⟨state.cursor.depth + 1, by rw [List.append_nil]; rfl⟩
    | some entries =>
      have hc := h entries { state with cursor.depth := state.cursor.depth + 1 }
      dsimp only at hc ⊢
      rw [EStateM.run_bind]
      cases hw : walk entries state.options (state.cursor.depth + 1) with
      | ok out =>
        rw [hw] at hc
        rw [show (fields entries).run _ = .ok out _ from hc]
        rfl
      | error stop =>
        rw [hw] at hc
        obtain ⟨depth, hc⟩ := hc
        exact ⟨depth, by rw [hc]⟩

mutual

theorem form_follows : (f : Form) → (value : Json) →
    (form f value).Follows fun options level => Walk.form options f level value
  | .scalar tag, value => by
    unfold form Walk.form
    cases tag.array with
    | true => exact list_follows tag.kind value
    | false => exact scalar_follows tag.kind value
  | .union kinds, value => by
    unfold form Walk.form
    exact union_follows kinds value
  | .nested fields, value => by
    unfold form Walk.form
    apply elements_follows
    intro item
    apply Follows.bind (record_follows (fieldsOf_follows fields) item)
    intro out
    exact Follows.ok (Json.obj out)

theorem fieldsOf_follows : (fields : List (String × Form)) → (entries : Record) →
    (fieldsOf fields entries).Follows fun options level =>
      Walk.fieldsOf options fields level entries
  | [], entries => by
    unfold fieldsOf Walk.fieldsOf
    exact Follows.ok []
  | (name, f) :: rest, entries => by
    unfold fieldsOf Walk.fieldsOf
    cases entries.lookup name with
    | some value =>
      apply Follows.under name (form_follows f value)
      intro out
      apply Follows.bind (fieldsOf_follows rest entries)
      intro outs
      exact Follows.ok ((name, out) :: outs)
    | none =>
      cases f.isOptional with
      | true => exact Follows.skipped name (fieldsOf_follows rest entries)
      | false => exact Follows.missing name

end

end Engine

theorem Schema.coerce_eq_outcome (schema : Schema) (input : Json) (options : Options) :
    schema.coerce input options = (schema.walk options input).outcome := by
  have h : Engine.EndsAs { options } (schema.walk options input)
      ((Engine.record (Engine.fieldsOf schema.fields) input).run { options }) :=
    Engine.record_follows (Engine.fieldsOf_follows schema.fields) input { options }
  rw [Schema.coerce]
  cases hw : schema.walk options input with
  | ok record =>
    rw [hw] at h
    rw [show (Engine.record _ input).run { options } = .ok record { options } from h]
    rfl
  | error stop =>
    rw [hw] at h
    obtain ⟨depth, h⟩ := h
    rw [h, List.nil_append]
    cases hReason : stop.reason <;> simp [Walk.outcome, hReason, Reason.failure]

theorem Schema.coerce_eq_accepted_iff {schema : Schema} {input : Json} {options : Options}
    {out : Record} :
    schema.coerce input options = .accepted out ↔ schema.walk options input = .ok out := by
  rw [Schema.coerce_eq_outcome]
  cases schema.walk options input with
  | ok record => simp [Walk.outcome]
  | error stop =>
    cases hReason : stop.reason <;> simp [Walk.outcome, hReason, Reason.failure]

end Conform
