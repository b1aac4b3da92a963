import Conform.Proofs.Alike
import Conform.Proofs.TagText
import Conform.Schema.Conversion
import Mathlib.Data.List.Nodup

/-! # Equality of literals

A schema and its literal are compared by two tests, one on forms and one on shapes. They agree on all
schemas, unions of no kinds included, since no two tags and no two kinds share a text. What both of
them decide is that the fields of the one schema, put in another order at every level, are those of the
other.
-/

set_option autoImplicit false

namespace Conform

namespace Shape

theorem lookup_ofForms (fields : List (String × Form)) (name : String) :
    (ofForms fields).lookup name = (fields.lookup name).map ofForm := by
  induction fields with
  | nil => rfl
  | cons field rest ih =>
    obtain ⟨first, form⟩ := field
    rw [ofForms, List.lookup_cons, List.lookup_cons]
    cases name == first with
    | true => rfl
    | false => exact ih

theorem length_ofForms (fields : List (String × Form)) : (ofForms fields).length = fields.length := by
  simpa [Entries.names] using congrArg List.length (names_ofForms fields)

mutual

theorem same_ofForm : (f g : Form) → (ofForm f).same (ofForm g) = f.same g
  | .scalar t, g => by
    cases g with
    | scalar other =>
      rw [ofForm, ofForm, same, Form.same, Bool.eq_iff_iff, beq_iff_eq, beq_iff_eq]
      exact Tag.text_injective.eq_iff
    | union _ | nested _ => rfl
  | .union kinds, g => by
    cases g with
    | union others =>
      rw [ofForm, ofForm, same, Form.same, Bool.eq_iff_iff, beq_iff_eq, beq_iff_eq]
      exact (List.map_injective_iff.mpr Kind.text_injective).eq_iff
    | scalar _ | nested _ => rfl
  | .nested xs, g => by
    cases g with
    | nested ys =>
      rw [ofForm, ofForm, same, Form.same, sameSchemas, sameSchemas, Bool.and_true,
        sameFields_ofForms xs ys, length_ofForms, length_ofForms]
    | scalar _ | union _ => rfl

theorem sameFields_ofForms : (xs ys : List (String × Form)) →
    sameFields (ofForms xs) (ofForms ys) = Form.sameFields xs ys
  | [], _ => rfl
  | (name, f) :: rest, ys => by
    rw [ofForms, sameFields, Form.sameFields, sameFields_ofForms rest ys, lookup_ofForms,
      Option.any_map]
    simp only [same_ofForm f]

end

end Shape

namespace Form

mutual

/-- The fields stand in another order, at any level. Nothing else is different. -/
inductive Permuted : Form → Form → Prop
  | scalar (tag : Tag) : Permuted (.scalar tag) (.scalar tag)
  | union (kinds : List Kind) : Permuted (.union kinds) (.union kinds)
  | nested {xs ys zs : List (String × Form)} : PermutedEach xs ys → ys.Perm zs →
      Permuted (.nested xs) (.nested zs)

/-- The names stay in place, and each form is permuted on its own. -/
inductive PermutedEach : List (String × Form) → List (String × Form) → Prop
  | nil : PermutedEach [] []
  | cons {name : String} {f g : Form} {xs ys : List (String × Form)} : Permuted f g →
      PermutedEach xs ys → PermutedEach ((name, f) :: xs) ((name, g) :: ys)

end

section Permuted

variable {xs ys zs : List (String × Form)}

theorem PermutedEach.names_eq (h : PermutedEach xs ys) : Entries.names xs = Entries.names ys := by
  induction xs generalizing ys with
  | nil =>
    cases h
    rfl
  | cons _ rest ih =>
    cases h with
    | cons _ hRest => rw [Entries.names_cons, Entries.names_cons, ih hRest]

/-- Fields without a name twice fill the fields that they are found in, if they are as many. -/
theorem perm_of_subset (hNodup : (Entries.names xs).Nodup) (hSubset : xs ⊆ ys)
    (hLength : xs.length = ys.length) : xs.Perm ys :=
  (List.subperm_of_subset (List.Nodup.of_map _ hNodup) hSubset).perm_of_length_le (by omega)

theorem distinctAll_of_perm (h : xs.Perm ys) (hDistinct : DistinctAll ys) : DistinctAll xs := by
  rw [distinctAll_iff] at hDistinct ⊢
  exact fun field hField => hDistinct field (h.mem_iff.mp hField)

mutual

theorem permuted_of_same : (f : Form) → f.Distinct → (g : Form) → g.Distinct →
    f.same g = true → f.Permuted g
  | .scalar tag, _, g, _, h => by
    cases g with
    | scalar other =>
      rw [same, beq_iff_eq] at h
      exact h ▸ .scalar tag
    | union _ | nested _ => simp [same] at h
  | .union kinds, _, g, _, h => by
    cases g with
    | union others =>
      rw [same, beq_iff_eq] at h
      exact h ▸ .union kinds
    | scalar _ | nested _ => simp [same] at h
  | .nested xs, hx, g, hy, h => by
    cases g with
    | nested zs =>
      rw [same_nested_iff hx.1 hy.1, Entries.alike_iff hx.1 hy.1] at h
      obtain ⟨ys, hEach, hSubset⟩ := exists_permutedEach xs hx.2 zs hy.2 h.2
      have hNames := hEach.names_eq
      have hLength : ys.length = zs.length := by
        rw [← h.1]
        simpa [Entries.names] using congrArg List.length hNames.symm
      exact .nested hEach (perm_of_subset (hNames ▸ hx.1) hSubset hLength)
    | scalar _ | union _ => simp [same] at h

theorem exists_permutedEach : (xs : List (String × Form)) → DistinctAll xs →
    (zs : List (String × Form)) → DistinctAll zs →
    (∀ field ∈ xs, ∃ g, zs.lookup field.1 = some g ∧ field.2.same g = true) →
    ∃ ys, PermutedEach xs ys ∧ ys ⊆ zs
  | [], _, zs, _, _ => ⟨[], .nil, List.nil_subset zs⟩
  | (name, f) :: rest, hx, zs, hz, h => by
    obtain ⟨⟨g, hg, hSame⟩, hRest⟩ := List.forall_mem_cons.mp h
    obtain ⟨ys, hEach, hSubset⟩ := exists_permutedEach rest hx.2 zs hz hRest
    obtain ⟨front, back, rfl, _⟩ := List.lookup_eq_some_iff.mp hg
    have hForm := permuted_of_same f hx.1 g (distinct_of_lookup hz hg) hSame
    exact ⟨(name, g) :: ys, .cons hForm hEach, List.cons_subset.mpr ⟨by simp, hSubset⟩⟩

end

mutual

theorem Permuted.same_eq {f g : Form} : f.Permuted g → f.Distinct → g.Distinct → f.same g = true
  | .scalar tag, _, _ => by simp [same]
  | .union kinds, _, _ => by simp [same]
  | .nested hEach hPerm, hx, hz => by
    rw [same_nested_iff hx.1 hz.1, Entries.alike_iff hx.1 hz.1]
    constructor
    · simpa [Entries.names, hPerm.length_eq] using congrArg List.length hEach.names_eq
    · intro field hField
      obtain ⟨g, hg, hSame⟩ := hEach.exists_same hx.2 (distinctAll_of_perm hPerm hz.2) field hField
      exact ⟨g, (Entries.lookup_eq_some_iff_mem hz.1).mpr (hPerm.mem_iff.mp hg), hSame⟩

theorem PermutedEach.exists_same {xs ys : List (String × Form)} : PermutedEach xs ys →
    DistinctAll xs → DistinctAll ys →
    ∀ field ∈ xs, ∃ g, (field.1, g) ∈ ys ∧ field.2.same g = true
  | .nil, _, _ => List.forall_mem_nil _
  | .cons hForm hRest, hx, hy => by
    refine List.forall_mem_cons.mpr ⟨⟨_, List.mem_cons_self, hForm.same_eq hx.1 hy.1⟩, ?_⟩
    intro field hField
    obtain ⟨g, hg, hSame⟩ := hRest.exists_same hx.2 hy.2 field hField
    exact ⟨g, List.mem_cons_of_mem _ hg, hSame⟩

end

end Permuted

end Form

namespace Schema

theorem same_iff_permuted (first second : Schema) :
    first.same second = true ↔ first.form.Permuted second.form :=
  ⟨Form.permuted_of_same first.form first.distinct second.form second.distinct,
    fun h => h.same_eq first.distinct second.distinct⟩

theorem same_toLiteral (first second : Schema) :
    first.toLiteral.same second.toLiteral = first.same second := by
  rw [Literal.same, toLiteral, toLiteral, Shape.sameFields_ofForms, Shape.length_ofForms,
    Shape.length_ofForms]
  rfl

/-- Schemas are equal exactly if their literals are. Either equality says that the fields differ in their
order alone, at every level. The kinds of a union keep theirs. -/
theorem same_toLiteral_iff (first second : Schema) :
    (first.same second = true ↔ first.toLiteral.same second.toLiteral = true) ∧
    (first.same second = true ↔ first.form.Permuted second.form) := by
  refine ⟨?_, same_iff_permuted first second⟩
  rw [same_toLiteral]

end Schema

end Conform
