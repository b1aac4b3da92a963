import Conform.Text.Pieces

/-! # Splitting and joining

The pieces of a text are the one way to write it as separator-free parts with separators between them.
-/

set_option autoImplicit false

namespace Conform.Text

structure Splits (separator : Char) (text : List Char) (parts : List (List Char)) : Prop where
  nonempty : parts ≠ []
  free : ∀ part ∈ parts, separator ∉ part
  joined : [separator].intercalate parts = text

theorem pieces_eq_splitOn (separator : Char) (text : List Char) :
    pieces separator text = text.splitOn separator := by
  induction text with
  | nil => rfl
  | cons c rest ih =>
    rw [pieces, List.splitOn_cons_eq_if_modifyHead, ih]
    by_cases h : c = separator
    · simp [h]
    · rw [if_neg h, if_neg (by simpa using h)]
      cases hRest : rest.splitOn separator with
      | nil => exact absurd hRest (List.splitOn_ne_nil _ _)
      | cons part parts => rfl

theorem free_of_mem_pieces {separator : Char} {text part : List Char}
    (h : part ∈ pieces separator text) : separator ∉ part := by
  induction text generalizing part with
  | nil => simp_all [pieces]
  | cons c rest ih =>
    rw [pieces] at h
    split at h
    · rcases List.mem_cons.mp h with rfl | h
      · exact List.not_mem_nil
      · exact ih h
    · rename_i hc
      cases hRest : pieces separator rest with
      | nil =>
        rw [hRest] at h
        obtain rfl := List.mem_singleton.mp h
        simpa using Ne.symm hc
      | cons first others =>
        rw [hRest] at h ih
        rcases List.mem_cons.mp h with rfl | h
        · have hFirst := ih List.mem_cons_self
          simp [Ne.symm hc, hFirst]
        · exact ih (List.mem_cons_of_mem _ h)

theorem splits_pieces (separator : Char) (text : List Char) :
    Splits separator text (pieces separator text) where
  nonempty := by
    rw [pieces_eq_splitOn]
    exact List.splitOn_ne_nil _ _
  free _ h := free_of_mem_pieces h
  joined := by
    rw [pieces_eq_splitOn]
    exact List.intercalate_splitOn separator

theorem splits_iff {separator : Char} {text : List Char} {parts : List (List Char)} :
    Splits separator text parts ↔ parts = pieces separator text := by
  constructor
  · intro h
    rw [pieces_eq_splitOn, ← h.joined, List.splitOn_intercalate separator h.free h.nonempty]
  · rintro rfl
    exact splits_pieces separator text

end Conform.Text
