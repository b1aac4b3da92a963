import Mathlib.Data.List.Forall2

/-! # Computations in sequence

What it takes for one computation after another to succeed, or to end in a given error, and for a
computation on every element of a list.
-/

set_option autoImplicit false

namespace Conform

variable {ε α β : Type} {first : Except ε α} {next : α → Except ε β}

theorem bind_eq_ok_iff {out : β} :
    first >>= next = .ok out ↔ ∃ value, first = .ok value ∧ next value = .ok out := by
  cases first with
  | ok value => simp [bind, Except.bind]
  | error reason => simp [bind, Except.bind]

theorem bind_eq_error_iff {error : ε} :
    first >>= next = .error error ↔
      first = .error error ∨ ∃ value, first = .ok value ∧ next value = .error error := by
  cases first with
  | ok value => simp [bind, Except.bind]
  | error reason => simp [bind, Except.bind]

/-- A last step that cannot fail adds no errors. -/
theorem bind_pure_eq_error_iff {f : α → β} {error : ε} :
    (first >>= fun value => pure (f value)) = .error error ↔ first = .error error := by
  rw [bind_eq_error_iff]
  exact or_iff_left fun ⟨_, _, h⟩ => nomatch h

section Lists

variable {read : α → Option β} {xs : List α}

theorem mapM_eq_some_iff {ys : List β} :
    xs.mapM read = some ys ↔ List.Forall₂ (fun x y => read x = some y) xs ys := by
  induction xs generalizing ys with
  | nil => simp [eq_comm]
  | cons x rest ih =>
    rw [List.mapM_cons]
    constructor
    · intro h
      obtain ⟨y, hy, h⟩ := Option.bind_eq_some_iff.mp h
      obtain ⟨others, hOthers, h⟩ := Option.bind_eq_some_iff.mp h
      cases h
      exact .cons hy (ih.mp hOthers)
    · rintro (_ | ⟨hy, hOthers⟩)
      rw [hy, ih.mpr hOthers]
      rfl

theorem mapM_eq_none_iff : xs.mapM read = none ↔ ∃ x ∈ xs, read x = none := by
  induction xs with
  | nil => simp
  | cons x rest ih =>
    rw [List.mapM_cons, List.exists_mem_cons_iff, ← ih]
    cases read x with
    | none => simp
    | some y => cases rest.mapM read <;> simp

end Lists

end Conform
