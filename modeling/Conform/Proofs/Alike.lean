import Conform.Json.Basic
import Conform.Schema.Equality
import Mathlib.Data.List.Perm.Subperm

/-! # Equality without regard to order

Equal schemas have equal forms under each name, and equal records equal values. The tests count the
entries and look up those of one side only. That is enough, since no name is given twice: the
entries of the other side cannot be any others.
-/

set_option autoImplicit false

namespace Conform

namespace Entries

section Alike

variable {α β : Type} {R : α → β → Prop} {xs : Entries α} {ys : Entries β}

theorem lookup_eq_some_iff_mem {name : String} {x : α} (h : (names xs).Nodup) :
    xs.lookup name = some x ↔ (name, x) ∈ xs := by
  rw [List.lookup_eq_some_iff]
  constructor
  · rintro ⟨front, back, rfl, _⟩
    exact List.mem_append_right front List.mem_cons_self
  · intro hMem
    obtain ⟨front, back, rfl⟩ := List.append_of_mem hMem
    refine ⟨front, back, rfl, ?_⟩
    intro entry hEntry
    rw [names, List.map_append, List.map_cons] at h
    rw [bne_iff_ne]
    rintro rfl
    exact (List.nodup_append.mp h).2.2 _ (mem_names_of_mem hEntry) _
      List.mem_cons_self rfl

theorem exists_lookup_iff {name : String} : (∃ x, xs.lookup name = some x) ↔ name ∈ names xs := by
  rw [← Option.isSome_iff_exists, ← Option.ne_none_iff_isSome, ne_eq, lookup_eq_none_iff, not_not]

/-- The two have the same names and related values under each. -/
structure Alike (R : α → β → Prop) (xs : Entries α) (ys : Entries β) : Prop where
  names_iff : ∀ name, name ∈ names xs ↔ name ∈ names ys
  values : ∀ name x y, xs.lookup name = some x → ys.lookup name = some y → R x y

theorem Alike.exists_of_lookup (h : Alike R xs ys) {name : String} {x : α}
    (hx : xs.lookup name = some x) : ∃ y, ys.lookup name = some y ∧ R x y := by
  obtain ⟨y, hy⟩ := exists_lookup_iff.mpr ((h.names_iff name).mp (mem_names_of_lookup hx))
  exact ⟨y, hy, h.values name x y hx hy⟩

theorem Alike.length_eq (h : Alike R xs ys) (hx : (names xs).Nodup) (hy : (names ys).Nodup) :
    xs.length = ys.length := by
  have hPerm := (List.perm_ext_iff_of_nodup hx hy).mpr h.names_iff
  simpa [names] using hPerm.length_eq

/-- As many names on both sides, and every name of the first side on the second. -/
theorem alike_iff (hx : (names xs).Nodup) (hy : (names ys).Nodup) : Alike R xs ys ↔
    xs.length = ys.length ∧ ∀ entry ∈ xs, ∃ y, ys.lookup entry.1 = some y ∧ R entry.2 y := by
  constructor
  · intro h
    refine ⟨h.length_eq hx hy, ?_⟩
    intro entry hEntry
    exact h.exists_of_lookup ((lookup_eq_some_iff_mem hx).mpr hEntry)
  · rintro ⟨hLength, h⟩
    have hSubset : names xs ⊆ names ys := by
      intro name hName
      obtain ⟨entry, hEntry, rfl⟩ := List.mem_map.mp hName
      obtain ⟨y, hLookup, _⟩ := h entry hEntry
      exact mem_names_of_lookup hLookup
    have hPerm : (names xs).Perm (names ys) :=
      (List.subperm_of_subset hx hSubset).perm_of_length_le (by simp [names, hLength])
    refine ⟨fun _ => hPerm.mem_iff, ?_⟩
    intro name x y hLookup hOther
    obtain ⟨_, hy, hR⟩ := h _ ((lookup_eq_some_iff_mem hx).mp hLookup)
    exact Option.some.inj (hy.symm.trans hOther) ▸ hR

end Alike

end Entries

namespace Json

theorem sameEntries_iff {xs ys : Record} : sameEntries xs ys = true ↔
    ∀ entry ∈ xs, ∃ y, ys.lookup entry.1 = some y ∧ entry.2.same y = true := by
  induction xs with
  | nil => simp [sameEntries]
  | cons entry rest ih =>
    obtain ⟨name, x⟩ := entry
    rw [sameEntries, Bool.and_eq_true, ih, List.forall_mem_cons, Option.any_eq_true]

theorem same_obj_iff {xs ys : Record} (hx : (Entries.names xs).Nodup)
    (hy : (Entries.names ys).Nodup) :
    (obj xs).same (.obj ys) = true ↔ Entries.Alike (·.same · = true) xs ys := by
  rw [same, Bool.and_eq_true, beq_iff_eq, sameEntries_iff, Entries.alike_iff hx hy]

theorem sameElements_map {elements : List Json} {f : Json → Json}
    (h : ∀ element ∈ elements, element.same (f element) = true) :
    sameElements elements (elements.map f) = true := by
  induction elements with
  | nil => rfl
  | cons element rest ih =>
    obtain ⟨hElement, hRest⟩ := List.forall_mem_cons.mp h
    rw [List.map_cons, sameElements, hElement, ih hRest]
    rfl

end Json

namespace Form

theorem sameFields_iff {xs ys : List (String × Form)} : sameFields xs ys = true ↔
    ∀ field ∈ xs, ∃ g, ys.lookup field.1 = some g ∧ field.2.same g = true := by
  induction xs with
  | nil => simp [sameFields]
  | cons field rest ih =>
    obtain ⟨name, f⟩ := field
    rw [sameFields, Bool.and_eq_true, ih, List.forall_mem_cons, Option.any_eq_true]

theorem same_nested_iff {xs ys : List (String × Form)} (hx : (Entries.names xs).Nodup)
    (hy : (Entries.names ys).Nodup) :
    (nested xs).same (.nested ys) = true ↔ Entries.Alike (·.same · = true) xs ys := by
  rw [same, Bool.and_eq_true, beq_iff_eq, sameFields_iff, Entries.alike_iff hx hy]

theorem distinct_of_lookup {fields : List (String × Form)} (h : DistinctAll fields) {name : String}
    {f : Form} (hLookup : fields.lookup name = some f) : f.Distinct := by
  obtain ⟨front, back, rfl, _⟩ := List.lookup_eq_some_iff.mp hLookup
  exact distinctAll_iff.mp h (name, f) (List.mem_append_right front List.mem_cons_self)

theorem isOptional_eq_of_same {f g : Form} (h : f.same g = true) : f.isOptional = g.isOptional := by
  cases f <;> cases g <;> simp [same] at h <;> simp [isOptional, h]

mutual

theorem same_symm : (f : Form) → f.Distinct → (g : Form) → g.Distinct → f.same g = true →
    g.same f = true
  | .scalar tag, _, g, _, h => by
    cases g with
    | scalar other =>
      rw [same, beq_iff_eq] at h ⊢
      exact h.symm
    | union _ | nested _ => simp [same] at h
  | .union kinds, _, g, _, h => by
    cases g with
    | union others =>
      rw [same, beq_iff_eq] at h ⊢
      exact h.symm
    | scalar _ | nested _ => simp [same] at h
  | .nested xs, hx, g, hy, h => by
    cases g with
    | nested ys =>
      have hAlike := (same_nested_iff hx.1 hy.1).mp h
      refine (same_nested_iff hy.1 hx.1).mpr ⟨fun name => (hAlike.names_iff name).symm, ?_⟩
      intro name g f hg hf
      exact same_symm_of_mem xs hx.2 _ ((Entries.lookup_eq_some_iff_mem hx.1).mp hf) g
        (distinct_of_lookup hy.2 hg) (hAlike.values name f g hf hg)
    | scalar _ | union _ => simp [same] at h

theorem same_symm_of_mem : (fields : List (String × Form)) → DistinctAll fields →
    ∀ field ∈ fields, ∀ g, g.Distinct → field.2.same g = true → g.same field.2 = true
  | [], _, _, hField, _, _, _ => nomatch hField
  | (_, f) :: rest, hDistinct, field, hField, g, hg, h => by
    rcases List.mem_cons.mp hField with rfl | hRest
    · exact same_symm f hDistinct.1 g hg h
    · exact same_symm_of_mem rest hDistinct.2 field hRest g hg h

end

end Form

end Conform
