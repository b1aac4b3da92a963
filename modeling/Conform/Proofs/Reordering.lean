import Conform.Proofs.Alike
import Conform.Proofs.Pruning
import Conform.Proofs.Recoercion

/-! # The order of fields

Schemas that differ only in the order of their fields, at any level, accept the same inputs, and what
the one gives is what the other gives in the order of its own fields. The order of fields decides only
which of several failures is met first.
-/

set_option autoImplicit false

namespace Conform

/-- Whatever the first form takes the second takes, and it gives the same data in its own order. -/
def Form.Swaps (options : Options) (f g : Form) : Prop :=
  ∀ level value out, Walk.form options f level value = .ok out →
    Walk.form options g level value = .ok (g.prune out) ∧ out.same (g.prune out) = true

namespace Walk

section Fields

variable {options : Options} {level : Nat} {fields xs ys : List (String × Form)}
  {entries outs : Record}

theorem names_fieldsOf (h : fieldsOf options fields level entries = .ok outs) :
    (Entries.names outs).Sublist (Entries.names fields) := by
  induction fields generalizing outs with
  | nil =>
    cases h
    exact List.Sublist.refl _
  | cons field rest ih =>
    obtain ⟨name, f⟩ := field
    rcases fieldsOf_cons_eq_ok_iff.mp h with ⟨_, _, _, _, _, hTail, rfl⟩ | ⟨_, _, hOuts⟩
    · exact (ih hTail).cons_cons name
    · exact (ih hOuts).cons name

/-- Where a field stands does not matter to what it gives under its name. -/
theorem lookup_of_fieldsOf (hNodup : (Entries.names fields).Nodup)
    (h : fieldsOf options fields level entries = .ok outs) {name : String} {f : Form}
    (hField : (name, f) ∈ fields) :
    (∃ value out, entries.lookup name = some value ∧ outs.lookup name = some out ∧
      form options f level value = .ok out) ∨
    (entries.lookup name = none ∧ outs.lookup name = none ∧ f.isOptional = true) := by
  induction fields generalizing outs with
  | nil => cases hField
  | cons field rest ih =>
    obtain ⟨first, g⟩ := field
    obtain ⟨hFresh, hRestNodup⟩ := List.nodup_cons.mp hNodup
    rcases List.mem_cons.mp hField with hHead | hRest
    · cases hHead
      rcases fieldsOf_cons_eq_ok_iff.mp h with
        ⟨value, out, _, hValue, hOut, _, rfl⟩ | ⟨hNone, hOptional, hOuts⟩
      · exact Or.inl ⟨value, out, hValue, List.lookup_cons_self, hOut⟩
      · exact Or.inr ⟨hNone, Entries.lookup_eq_none_iff.mpr fun hMem =>
          hFresh ((names_fieldsOf hOuts).subset hMem), hOptional⟩
    · have hNe : name ≠ first := by
        rintro rfl
        exact hFresh (Entries.mem_names_of_mem hRest)
      rcases fieldsOf_cons_eq_ok_iff.mp h with ⟨_, _, _, _, _, hTail, rfl⟩ | ⟨_, _, hOuts⟩
      · rw [List.lookup_cons, beq_false_of_ne hNe]
        exact ih hRestNodup hTail hRest
      · exact ih hRestNodup hOuts hRest

/-- If every field gives what pruning leaves under its name, the fields give the pruned record. -/
theorem fieldsOf_eq_pruneFields (h : ∀ name f, (name, f) ∈ fields →
      (∃ value out, entries.lookup name = some value ∧ outs.lookup name = some out ∧
        form options f level value = .ok (f.prune out)) ∨
      (entries.lookup name = none ∧ outs.lookup name = none ∧ f.isOptional = true)) :
    fieldsOf options fields level entries = .ok (Form.pruneFields fields outs) := by
  induction fields with
  | nil => rfl
  | cons field rest ih =>
    obtain ⟨name, f⟩ := field
    have hRest := ih fun other g hMem => h other g (List.mem_cons_of_mem _ hMem)
    rw [Form.pruneFields, fieldsOf_cons_eq_ok_iff]
    rcases h name f List.mem_cons_self with
      ⟨value, out, hValue, hOut, hForm⟩ | ⟨hNone, hAbsent, hOptional⟩
    · rw [hOut]
      exact Or.inl ⟨value, _, _, hValue, hForm, hRest, rfl⟩
    · rw [hAbsent]
      exact Or.inr ⟨hNone, hOptional, hRest⟩

section Swap

variable (hx : (Entries.names xs).Nodup) (hy : (Entries.names ys).Nodup)
  (h : Entries.Alike (fun f g => f.isOptional = g.isOptional ∧ Form.Swaps options f g) xs ys)
  (hOuts : fieldsOf options xs level entries = .ok outs)

include hx hy h hOuts

theorem fieldsOf_swap :
    fieldsOf options ys level entries = .ok (Form.pruneFields ys outs) := by
  apply fieldsOf_eq_pruneFields
  intro name g hField
  have hg := (Entries.lookup_eq_some_iff_mem hy).mpr hField
  obtain ⟨f, hf⟩ := Entries.exists_lookup_iff.mpr
    ((h.names_iff name).mpr (Entries.mem_names_of_lookup hg))
  obtain ⟨hOptional, hSwap⟩ := h.values name f g hf hg
  rcases lookup_of_fieldsOf hx hOuts ((Entries.lookup_eq_some_iff_mem hx).mp hf) with
    ⟨value, out, hValue, hOut, hForm⟩ | ⟨hNone, hAbsent, hIsOptional⟩
  · exact Or.inl ⟨value, out, hValue, hOut, (hSwap level value out hForm).1⟩
  · exact Or.inr ⟨hNone, hAbsent, hOptional ▸ hIsOptional⟩

/-- Every output stands in the pruned record as what its field makes of it there. -/
theorem exists_swap_of_lookup {name : String} {out : Json} (hOut : outs.lookup name = some out) :
    ∃ other, (Form.pruneFields ys outs).lookup name = some other ∧ out.same other = true := by
  obtain ⟨f, hf⟩ := Entries.exists_lookup_iff.mpr
    ((names_fieldsOf hOuts).subset (Entries.mem_names_of_lookup hOut))
  obtain ⟨g, hg, _, hSwap⟩ := h.exists_of_lookup hf
  refine ⟨g.prune out, ?_, ?_⟩
  · rw [Form.lookup_pruneFields hy outs ((Entries.lookup_eq_some_iff_mem hy).mp hg), hOut]
    rfl
  · rcases lookup_of_fieldsOf hx hOuts ((Entries.lookup_eq_some_iff_mem hx).mp hf) with
      ⟨value, _, _, hOther, hForm⟩ | ⟨_, hAbsent, _⟩
    · obtain rfl := Option.some.inj (hOut.symm.trans hOther)
      exact (hSwap level value out hForm).2
    · -- An absent field gives no output.
      rw [hOut] at hAbsent
      cases hAbsent

theorem same_pruneFields : (Json.obj outs).same (.obj (Form.pruneFields ys outs)) = true := by
  have hNodup := hx.sublist (names_fieldsOf hOuts)
  have hPruned := hy.sublist (Form.names_pruneFields ys outs)
  rw [Json.same_obj_iff hNodup hPruned]
  refine ⟨?_, ?_⟩
  · intro name
    constructor
    · intro hName
      obtain ⟨out, hOut⟩ := Entries.exists_lookup_iff.mpr hName
      obtain ⟨_, hOther, _⟩ := exists_swap_of_lookup hx hy h hOuts hOut
      exact Entries.mem_names_of_lookup hOther
    · intro hName
      obtain ⟨g, hg⟩ := Entries.exists_lookup_iff.mpr
        ((Form.names_pruneFields ys outs).subset hName)
      obtain ⟨other, hOther⟩ := Entries.exists_lookup_iff.mpr hName
      rw [Form.lookup_pruneFields hy outs ((Entries.lookup_eq_some_iff_mem hy).mp hg),
        Option.map_eq_some_iff] at hOther
      obtain ⟨out, hOut, _⟩ := hOther
      exact Entries.mem_names_of_lookup hOut
  · intro name out other hOut hOther
    obtain ⟨_, hFound, hSame⟩ := exists_swap_of_lookup hx hy h hOuts hOut
    exact Option.some.inj (hFound.symm.trans hOther) ▸ hSame

end Swap

theorem record_swap (hx : (Entries.names xs).Nodup) (hy : (Entries.names ys).Nodup)
    (h : Entries.Alike (fun f g => f.isOptional = g.isOptional ∧ Form.Swaps options f g) xs ys)
    {input : Json} (hOuts : record options level (fieldsOf options xs level) input = .ok outs) :
    record options level (fieldsOf options ys level) input = .ok (Form.pruneFields ys outs) ∧
      (Json.obj outs).same (.obj (Form.pruneFields ys outs)) = true := by
  obtain ⟨hLevel, entries, rfl, hFields⟩ := record_eq_ok_iff.mp hOuts
  exact ⟨record_eq_ok_iff.mpr ⟨hLevel, entries, rfl, fieldsOf_swap hx hy h hFields⟩,
    same_pruneFields hx hy h hFields⟩

end Fields

end Walk

namespace Form

section Swaps

variable {options : Options}

theorem swaps_scalar (tag : Tag) : (scalar tag).Swaps options (.scalar tag) := by
  intro level value out h
  rw [prune]
  refine ⟨h, ?_⟩
  cases hArray : tag.array with
  | false =>
    obtain ⟨_, _, hFits⟩ := ((Walk.form_tag_eq_ok_iff hArray).mp h).exists_fits
    exact hFits.same_self
  | true =>
    obtain ⟨elements, outs, _, rfl, hOuts⟩ := (Walk.form_list_eq_ok_iff hArray).mp h
    have hSelf : ∀ out ∈ outs, out.same out = true := by
      refine forall_mem_of_forall₂ (fun element out hOut => ?_) hOuts
      obtain ⟨_, _, hFits⟩ := hOut.exists_fits
      exact hFits.same_self
    simpa [Json.same] using Json.sameElements_map (f := id) hSelf

theorem swaps_union (kinds : List Kind) : (union kinds).Swaps options (.union kinds) := by
  intro level value out h
  rw [prune]
  obtain ⟨_, _, hFits⟩ := (Walk.form_union_eq_ok_iff.mp h).2.exists_fits
  exact ⟨h, hFits.same_self⟩

theorem swaps_nested {xs ys : List (String × Form)} (hx : (Entries.names xs).Nodup)
    (hy : (Entries.names ys).Nodup)
    (h : Entries.Alike (fun f g => f.isOptional = g.isOptional ∧ Swaps options f g) xs ys) :
    (nested xs).Swaps options (.nested ys) := by
  intro level value out hOut
  obtain ⟨items, outs, rfl, rfl, hOuts⟩ := Walk.form_nested_eq_ok_iff.mp hOut
  rw [prune, Json.mapElements, Json.same, Walk.form_nested_eq_ok_iff]
  constructor
  · refine ⟨items, _, rfl, rfl, List.forall₂_map_right_iff.mpr (hOuts.imp ?_)⟩
    rintro item _ ⟨record, hRecord, rfl⟩
    exact ⟨_, (Walk.record_swap hx hy h hRecord).1, rfl⟩
  · refine Json.sameElements_map (forall_mem_of_forall₂ ?_ hOuts)
    rintro item _ ⟨record, hRecord, rfl⟩
    exact (Walk.record_swap hx hy h hRecord).2

theorem alike_swaps {xs ys : List (String × Form)} (hx : (nested xs).Distinct)
    (hy : (nested ys).Distinct) (h : (nested xs).same (.nested ys) = true)
    (hSwaps : ∀ field ∈ xs, ∀ g, g.Distinct → field.2.same g = true → field.2.Swaps options g) :
    Entries.Alike (fun f g => f.isOptional = g.isOptional ∧ Swaps options f g) xs ys := by
  have hAlike := (same_nested_iff hx.1 hy.1).mp h
  refine ⟨hAlike.names_iff, ?_⟩
  intro name f g hf hg
  have hSame := hAlike.values name f g hf hg
  exact ⟨isOptional_eq_of_same hSame, hSwaps _ ((Entries.lookup_eq_some_iff_mem hx.1).mp hf) g
    (distinct_of_lookup hy.2 hg) hSame⟩

mutual

theorem swaps_of_same : (f : Form) → f.Distinct → (g : Form) → g.Distinct → f.same g = true →
    f.Swaps options g
  | .scalar tag, _, g, _, h => by
    cases g with
    | scalar other =>
      rw [same, beq_iff_eq] at h
      exact h ▸ swaps_scalar tag
    | union _ | nested _ => simp [same] at h
  | .union kinds, _, g, _, h => by
    cases g with
    | union others =>
      rw [same, beq_iff_eq] at h
      exact h ▸ swaps_union kinds
    | scalar _ | nested _ => simp [same] at h
  | .nested xs, hx, g, hy, h => by
    cases g with
    | nested ys => exact swaps_nested hx.1 hy.1 (alike_swaps hx hy h (swaps_of_mem xs hx.2))
    | scalar _ | union _ => simp [same] at h

theorem swaps_of_mem : (fields : List (String × Form)) → DistinctAll fields →
    ∀ field ∈ fields, ∀ g, g.Distinct → field.2.same g = true → field.2.Swaps options g
  | [], _, _, hField, _, _, _ => nomatch hField
  | (_, f) :: rest, hDistinct, field, hField, g, hg, h => by
    rcases List.mem_cons.mp hField with rfl | hRest
    · exact swaps_of_same f hDistinct.1 g hg h
    · exact swaps_of_mem rest hDistinct.2 field hRest g hg h

end

end Swaps

end Form

namespace Schema

section Order

variable {first second : Schema} {input : Json} {options : Options} {record : Record}

theorem same_symm (h : first.same second = true) : second.same first = true :=
  Form.same_symm first.form first.distinct second.form second.distinct h

theorem coerce_swap (h : first.same second = true)
    (hRecord : first.coerce input options = .accepted record) :
    second.coerce input options = .accepted (Form.pruneFields second.fields record) ∧
      record.same (Form.pruneFields second.fields record) = true := by
  rw [coerce_eq_accepted_iff, walk] at hRecord
  rw [coerce_eq_accepted_iff, walk]
  exact Walk.record_swap first.distinct.1 second.distinct.1
    (Form.alike_swaps first.distinct second.distinct h
      (Form.swaps_of_mem first.fields first.distinct.2)) hRecord

/-- Equal schemas accept the same inputs, with equal records. The second record is the first with the keys
in the order of the second schema, and nothing else about it is different. -/
theorem coerce_of_same (first second : Schema) (h : first.same second = true) (input : Json)
    (options : Options) :
    ((∃ record, first.coerce input options = .accepted record) ↔
      ∃ record, second.coerce input options = .accepted record) ∧
    ∀ record other, first.coerce input options = .accepted record →
      second.coerce input options = .accepted other →
      record.same other = true ∧ .obj other = second.prune (.obj record) := by
  refine ⟨⟨?_, ?_⟩, ?_⟩
  · rintro ⟨record, hRecord⟩
    exact ⟨_, (coerce_swap h hRecord).1⟩
  · rintro ⟨record, hRecord⟩
    exact ⟨_, (coerce_swap (same_symm h) hRecord).1⟩
  · intro record other hRecord hOther
    obtain ⟨hSecond, hSame⟩ := coerce_swap h hRecord
    rw [hOther] at hSecond
    cases hSecond
    exact ⟨hSame, rfl⟩

def personSchema : Schema :=
  .ofFields [("name", .scalar { kind := .string }),
    ("pets", .nested [("name", .scalar { kind := .string }), ("age", .union [.int, .null])])]

def petsFirstSchema : Schema :=
  .ofFields [("pets", .nested [("age", .union [.int, .null]), ("name", .scalar { kind := .string })]),
    ("name", .scalar { kind := .string })]

def personInput : Json :=
  .obj [("name", .str "Ann"), ("pets", .arr [.obj [("name", .str "Rex"), ("age", .str "3")]])]

def personRecord : Record :=
  [("name", .str "Ann"),
    ("pets", .arr [.obj [("name", .str "Rex"), ("age", .num (.int 3 (by decide)))]])]

def petsFirstRecord : Record :=
  [("pets", .arr [.obj [("age", .num (.int 3 (by decide))), ("name", .str "Rex")]]),
    ("name", .str "Ann")]

-- The order is turned round at both levels, and with it the order of the keys. Where two fields fail, each
-- schema reports the one that it declares first.
theorem coerce_of_same_person :
    personSchema.same petsFirstSchema = true ∧
    personSchema.coerce personInput { mode := .lenient } = .accepted personRecord ∧
    petsFirstSchema.coerce personInput { mode := .lenient } = .accepted petsFirstRecord ∧
    personRecord.same petsFirstRecord = true ∧
    personSchema.coerce (.obj [("pets", .null)]) {} = .rejected ["name"] ∧
    petsFirstSchema.coerce (.obj [("pets", .null)]) {} = .rejected ["pets"] ∧
    ¬ ∃ record, petsFirstSchema.coerce (.obj [("pets", .null)]) {} = .accepted record := by
  have h : personSchema.same petsFirstSchema = true := by decide +kernel
  have hFirst : personSchema.coerce personInput { mode := .lenient } =
      .accepted personRecord := by decide +kernel
  have hSecond : petsFirstSchema.coerce personInput { mode := .lenient } =
      .accepted petsFirstRecord := by decide +kernel
  have hRejected : personSchema.coerce (.obj [("pets", .null)]) {} = .rejected ["name"] := by
    decide +kernel
  refine ⟨h, hFirst, hSecond, ((coerce_of_same _ _ h _ _).2 _ _ hFirst hSecond).1, hRejected,
    by decide +kernel, ?_⟩
  intro hAccepted
  obtain ⟨record, hRecord⟩ := (coerce_of_same _ _ h _ _).1.mpr hAccepted
  rw [hRejected] at hRecord
  cases hRecord

end Order

end Schema

end Conform
