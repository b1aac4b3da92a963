import Conform.Proofs.Composition

/-! # The state of the engine

Every part of the engine leaves its state as it found it if it succeeds. If it fails, it has added to the
path and taken nothing from it, and neither what it added nor the failure depends on the path that was
there before. The options, which are in the state too, are never changed.
-/

set_option autoImplicit false

namespace Conform

/-- A failure with more in front of its path. -/
def Failure.under (front : Path) : Failure → Failure
  | .rejected => .rejected
  | .fault cause => .fault (cause.under front)

theorem Reason.failure_append (reason : Reason) (front path : Path) :
    reason.failure (front ++ path) = (reason.failure path).under front := by
  cases reason <;> rfl

namespace Engine

/-- The outcome and what a failure leaves behind the path are the same for every path. A success gives
back the whole state, and a failure gives back the options. -/
def Disciplined {α : Type} (action : Engine α) : Prop :=
  ∀ options depth,
    (∃ value, ∀ path, action.run { options, cursor := { path, depth } } =
      .ok value { options, cursor := { path, depth } }) ∨
    ∃ (failure : Failure) (suffix : Path), ∀ path, ∃ after,
      action.run { options, cursor := { path, depth } } =
        .error (failure.under path) { options, cursor := { path := path ++ suffix, depth := after } }

theorem Follows.disciplined {α : Type} {action : Engine α} {walk : Options → Nat → Walk α}
    (h : action.Follows walk) : action.Disciplined := by
  intro options depth
  cases hWalk : walk options depth with
  | ok value =>
    refine Or.inl ⟨value, fun path => ?_⟩
    have hRun := h { options, cursor := { path, depth } }
    rw [hWalk] at hRun
    exact hRun
  | error stop =>
    refine Or.inr ⟨stop.reason.failure stop.path, stop.path, fun path => ?_⟩
    have hRun := h { options, cursor := { path, depth } }
    rw [hWalk] at hRun
    obtain ⟨after, hRun⟩ := hRun
    exact ⟨after, by rw [hRun, Reason.failure_append]⟩

/-- Records, fields, lists of scalars, unions and lists of records are coerced without a trace in the state
if they succeed. If they fail, the path has grown, in a way that the path before does not decide, and the
options are what they were. -/
theorem state_discipline :
    (∀ fields input, (record (fieldsOf fields) input).Disciplined) ∧
    (∀ f value, (form f value).Disciplined) ∧
    (∀ kind value, (list kind value).Disciplined) ∧
    (∀ kinds value, (union kinds value).Disciplined) ∧
    ∀ fields value, (form (.nested fields) value).Disciplined := by
  have hForm : ∀ f value, (form f value).Disciplined :=
    fun f value => (form_follows f value).disciplined
  refine ⟨?_, hForm, ?_, ?_, fun fields => hForm (.nested fields)⟩
  · intro fields input
    exact (record_follows (fieldsOf_follows fields) input).disciplined
  · intro kind value
    exact (list_follows kind value).disciplined
  · intro kinds value
    exact (union_follows kinds value).disciplined

end Engine

end Conform
