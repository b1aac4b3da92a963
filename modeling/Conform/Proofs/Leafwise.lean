import Conform.Proofs.Walk

/-! # Relations leaf by leaf

Two values of one form that have the same keys and the same lengths at every level, with a relation
between the leaves that stand at one place. Coercing what a coercion gave stays in this shape, and
what happens to it is decided by what the kinds of each leaf do to the leaf.
-/

set_option autoImplicit false

namespace Conform

namespace Form

/-- What relates two leaves under the kinds that govern them. -/
abbrev LeafRelation := List Kind → Json → Json → Prop

mutual

inductive Leafwise (R : LeafRelation) : Form → Json → Json → Prop
  | scalar {tag : Tag} {x y : Json} : tag.array = false → R [tag.kind] x y →
      Leafwise R (.scalar tag) x y
  | list {tag : Tag} {xs ys : List Json} : tag.array = true → List.Forall₂ (R [tag.kind]) xs ys →
      Leafwise R (.scalar tag) (.arr xs) (.arr ys)
  | union {kinds : List Kind} {x y : Json} : R kinds x y → Leafwise R (.union kinds) x y
  | nested {fields : List (String × Form)} {xs ys : List Json} : LeafwiseItems R fields xs ys →
      Leafwise R (.nested fields) (.arr xs) (.arr ys)

inductive LeafwiseItems (R : LeafRelation) : List (String × Form) → List Json → List Json → Prop
  | nil {fields : List (String × Form)} : LeafwiseItems R fields [] []
  | cons {fields : List (String × Form)} {x y : Record} {xs ys : List Json} :
      LeafwiseFields R fields x y → LeafwiseItems R fields xs ys →
      LeafwiseItems R fields (.obj x :: xs) (.obj y :: ys)

inductive LeafwiseFields (R : LeafRelation) : List (String × Form) → Record → Record → Prop
  | nil : LeafwiseFields R [] [] []
  | present {name : String} {form : Form} {rest : List (String × Form)} {x y : Json}
      {xs ys : Record} : Leafwise R form x y → LeafwiseFields R rest xs ys →
      LeafwiseFields R ((name, form) :: rest) ((name, x) :: xs) ((name, y) :: ys)
  | absent {name : String} {form : Form} {rest : List (String × Form)} {xs ys : Record} :
      form.isOptional = true → name ∉ Entries.names xs → name ∉ Entries.names ys →
      LeafwiseFields R rest xs ys → LeafwiseFields R ((name, form) :: rest) xs ys

end

end Form

section Lists

variable {α β γ : Type}

theorem forall₂_chain {R : α → β → Prop} {S T : β → γ → Prop}
    (h : ∀ a b c, R a b → S b c → T b c) {xs : List α} {ys : List β} {zs : List γ}
    (hFirst : List.Forall₂ R xs ys) (hSecond : List.Forall₂ S ys zs) : List.Forall₂ T ys zs := by
  induction hFirst generalizing zs with
  | nil =>
    cases hSecond
    exact .nil
  | cons hHead _ ih =>
    cases hSecond with
    | cons hNext hTail => exact .cons (h _ _ _ hHead hNext) (ih hTail)

theorem exists_forall₂ {R : α → β → Prop} {S : β → γ → Prop} (h : ∀ a b, R a b → ∃ c, S b c)
    {xs : List α} {ys : List β} (hAll : List.Forall₂ R xs ys) : ∃ zs, List.Forall₂ S ys zs := by
  induction hAll with
  | nil => exact ⟨[], .nil⟩
  | cons hHead _ ih =>
    obtain ⟨z, hz⟩ := h _ _ hHead
    obtain ⟨zs, hzs⟩ := ih
    exact ⟨z :: zs, .cons hz hzs⟩

theorem forall_mem_of_forall₂ {R : α → β → Prop} {P : β → Prop} (h : ∀ x y, R x y → P y)
    {xs : List α} {ys : List β} (hAll : List.Forall₂ R xs ys) : ∀ y ∈ ys, P y := by
  induction hAll with
  | nil => exact List.forall_mem_nil P
  | cons hHead _ ih => exact List.forall_mem_cons.mpr ⟨h _ _ hHead, ih⟩

theorem forall₂_with_eq {R : α → α → Prop} {xs ys : List α} (hAll : List.Forall₂ R xs ys)
    (hEq : xs = ys) : List.Forall₂ (fun a b => a = b ∧ R a b) xs ys := by
  induction hAll with
  | nil => exact .nil
  | cons hHead _ ih =>
    obtain ⟨hHeadEq, hTailEq⟩ := List.cons.inj hEq
    exact .cons ⟨hHeadEq, hHead⟩ (ih hTailEq)

end Lists

namespace Form

section Structure

variable {R S T : LeafRelation}

mutual

theorem Leafwise.eq (h : ∀ kinds a b, R kinds a b → a = b) {f : Form} {x y : Json} :
    f.Leafwise R x y → x = y
  | .scalar _ hLeaf => h _ _ _ hLeaf
  | .list _ hLeaves => by
    have hEq := hLeaves.imp fun _ _ => h _ _ _
    rw [List.forall₂_eq_eq_eq] at hEq
    rw [hEq]
  | .union hLeaf => h _ _ _ hLeaf
  | .nested hItems => by rw [hItems.eq h]

theorem LeafwiseItems.eq (h : ∀ kinds a b, R kinds a b → a = b) {fields : List (String × Form)}
    {xs ys : List Json} : LeafwiseItems R fields xs ys → xs = ys
  | .nil => rfl
  | .cons hFields hItems => by rw [hFields.eq h, hItems.eq h]

theorem LeafwiseFields.eq (h : ∀ kinds a b, R kinds a b → a = b) {fields : List (String × Form)}
    {xs ys : Record} : LeafwiseFields R fields xs ys → xs = ys
  | .nil => rfl
  | .present hLeaf hRest => by rw [hLeaf.eq h, hRest.eq h]
  | .absent _ _ _ hRest => hRest.eq h

end

mutual

theorem Leafwise.imp (h : ∀ kinds a b, R kinds a b → S kinds a b) {f : Form} {x y : Json} :
    f.Leafwise R x y → f.Leafwise S x y
  | .scalar hArray hLeaf => .scalar hArray (h _ _ _ hLeaf)
  | .list hArray hLeaves => .list hArray (hLeaves.imp fun _ _ => h _ _ _)
  | .union hLeaf => .union (h _ _ _ hLeaf)
  | .nested hItems => .nested (hItems.imp h)

theorem LeafwiseItems.imp (h : ∀ kinds a b, R kinds a b → S kinds a b)
    {fields : List (String × Form)} {xs ys : List Json} :
    LeafwiseItems R fields xs ys → LeafwiseItems S fields xs ys
  | .nil => .nil
  | .cons hFields hItems => .cons (hFields.imp h) (hItems.imp h)

theorem LeafwiseFields.imp (h : ∀ kinds a b, R kinds a b → S kinds a b)
    {fields : List (String × Form)} {xs ys : Record} :
    LeafwiseFields R fields xs ys → LeafwiseFields S fields xs ys
  | .nil => .nil
  | .present hLeaf hRest => .present (hLeaf.imp h) (hRest.imp h)
  | .absent hOptional hx hy hRest => .absent hOptional hx hy (hRest.imp h)

end

mutual

/-- Where nothing changes, the relation holds of every leaf and itself. -/
theorem Leafwise.with_eq {f : Form} {x y : Json} :
    f.Leafwise R x y → x = y → f.Leafwise (fun kinds a b => a = b ∧ R kinds a b) x y
  | .scalar hArray hLeaf, hEq => .scalar hArray ⟨hEq, hLeaf⟩
  | .list hArray hLeaves, hEq => .list hArray (forall₂_with_eq hLeaves (Json.arr.inj hEq))
  | .union hLeaf, hEq => .union ⟨hEq, hLeaf⟩
  | .nested hItems, hEq => .nested (hItems.with_eq (Json.arr.inj hEq))

theorem LeafwiseItems.with_eq {fields : List (String × Form)} {xs ys : List Json} :
    LeafwiseItems R fields xs ys → xs = ys →
      LeafwiseItems (fun kinds a b => a = b ∧ R kinds a b) fields xs ys
  | .nil, _ => .nil
  | .cons hFields hItems, hEq =>
    have ⟨hHead, hTail⟩ := List.cons.inj hEq
    .cons (hFields.with_eq (Json.obj.inj hHead)) (hItems.with_eq hTail)

theorem LeafwiseFields.with_eq {fields : List (String × Form)} {xs ys : Record} :
    LeafwiseFields R fields xs ys → xs = ys →
      LeafwiseFields (fun kinds a b => a = b ∧ R kinds a b) fields xs ys
  | .nil, _ => .nil
  | .present hLeaf hRest, hEq =>
    have ⟨hHead, hTail⟩ := List.cons.inj hEq
    .present (hLeaf.with_eq (Prod.mk.inj hHead).2) (hRest.with_eq hTail)
  | .absent hOptional hx hy hRest, hEq => .absent hOptional hx hy (hRest.with_eq hEq)

end

mutual

/-- What is known of a leaf from before may be used of what happens to it next. -/
theorem Leafwise.chain (h : ∀ kinds a b c, R kinds a b → S kinds b c → T kinds b c) {f : Form}
    {x y z : Json} : f.Leafwise R x y → f.Leafwise S y z → f.Leafwise T y z
  | .scalar hArray hLeaf, hSecond => by
    cases hSecond with
    | scalar _ hNext => exact .scalar hArray (h _ _ _ _ hLeaf hNext)
    | list hList _ => exact absurd hList (by simp [hArray])
  | .list hArray hLeaves, hSecond => by
    cases hSecond with
    | scalar hScalar _ => exact absurd hArray (by simp [hScalar])
    | list _ hNext => exact .list hArray (forall₂_chain (h _) hLeaves hNext)
  | .union hLeaf, .union hNext => .union (h _ _ _ _ hLeaf hNext)
  | .nested hItems, .nested hNext => .nested (hItems.chain h hNext)

theorem LeafwiseItems.chain (h : ∀ kinds a b c, R kinds a b → S kinds b c → T kinds b c)
    {fields : List (String × Form)} {xs ys zs : List Json} :
    LeafwiseItems R fields xs ys → LeafwiseItems S fields ys zs → LeafwiseItems T fields ys zs
  | .nil, .nil => .nil
  | .cons hFields hItems, .cons hNext hNextItems =>
    .cons (hFields.chain h hNext) (hItems.chain h hNextItems)

theorem LeafwiseFields.chain (h : ∀ kinds a b c, R kinds a b → S kinds b c → T kinds b c)
    {fields : List (String × Form)} {xs ys zs : Record} :
    LeafwiseFields R fields xs ys → LeafwiseFields S fields ys zs → LeafwiseFields T fields ys zs
  | .nil, .nil => .nil
  | .present hLeaf hRest, hSecond => by
    cases hSecond with
    | present hNext hNextRest => exact .present (hLeaf.chain h hNext) (hRest.chain h hNextRest)
    | absent _ hFresh _ _ => exact absurd List.mem_cons_self hFresh
  | .absent hOptional _ hFresh hRest, hSecond => by
    cases hSecond with
    | present _ _ => exact absurd List.mem_cons_self hFresh
    | absent _ hy hz hNext => exact .absent hOptional hy hz (hRest.chain h hNext)

end

/-- Every leaf of a record, with the kinds that govern it. -/
def EveryLeaf (P : List Kind → Json → Prop) (fields : List (String × Form)) (record : Record) : Prop :=
  LeafwiseFields (fun kinds a b => a = b ∧ P kinds a) fields record record

theorem LeafwiseFields.eq_iff_everyLeaf {P : List Kind → Json → Prop} {fields : List (String × Form)}
    {xs ys : Record} (h : LeafwiseFields (fun kinds a b => a = b ↔ P kinds a) fields xs ys) :
    xs = ys ↔ EveryLeaf P fields xs := by
  constructor
  · rintro rfl
    refine (h.with_eq rfl).imp ?_
    rintro kinds a _ ⟨rfl, hLeaf⟩
    exact ⟨rfl, hLeaf.mp rfl⟩
  · intro hEvery
    have hEq : LeafwiseFields (fun _ a b => a = b) fields xs ys := by
      refine hEvery.chain ?_ h
      rintro kinds _ a b ⟨rfl, ha⟩ hLeaf
      exact hLeaf.mpr ha
    exact hEq.eq fun _ _ _ hLeaf => hLeaf

theorem LeafwiseFields.names_subset {fields : List (String × Form)} {xs ys : Record}
    (h : LeafwiseFields R fields xs ys) : Entries.names xs ⊆ Entries.names fields := by
  induction fields generalizing xs ys with
  | nil =>
    cases h
    exact List.Subset.refl _
  | cons field rest ih =>
    cases h with
    | present _ hRest => exact List.cons_subset_cons _ (ih hRest)
    | absent _ _ _ hRest => exact List.Subset.trans (ih hRest) (List.subset_cons_self _ _)

theorem LeafwiseFields.names_eq {fields : List (String × Form)} {xs ys : Record}
    (h : LeafwiseFields R fields xs ys) : Entries.names xs = Entries.names ys := by
  induction fields generalizing xs ys with
  | nil =>
    cases h
    rfl
  | cons field rest ih =>
    cases h with
    | present _ hRest => rw [Entries.names_cons, Entries.names_cons, ih hRest]
    | absent _ _ _ hRest => exact ih hRest

theorem sameElements_iff (h : ∀ kinds a b, R kinds a b → (a.same b = true ↔ a = b))
    {kinds : List Kind} {xs ys : List Json} (hLeaves : List.Forall₂ (R kinds) xs ys) :
    Json.sameElements xs ys = true ↔ xs = ys := by
  induction hLeaves with
  | nil => simp [Json.sameElements]
  | cons hLeaf _ ih => rw [Json.sameElements, Bool.and_eq_true, h _ _ _ hLeaf, ih, List.cons.injEq]

theorem sameEntries_cons_of_not_mem {name : String} {y : Json} {xs ys : Record}
    (h : name ∉ Entries.names xs) :
    Json.sameEntries xs ((name, y) :: ys) = Json.sameEntries xs ys := by
  induction xs with
  | nil => rfl
  | cons entry rest ih =>
    obtain ⟨other, x⟩ := entry
    rw [Entries.names_cons, List.mem_cons, not_or] at h
    rw [Json.sameEntries, Json.sameEntries, ih h.2, List.lookup_cons,
      beq_false_of_ne (Ne.symm h.1)]

mutual

/-- Equality of data is identity, if it is so for leaves. -/
theorem Leafwise.same_iff (h : ∀ kinds a b, R kinds a b → (a.same b = true ↔ a = b)) {f : Form}
    {x y : Json} : f.Leafwise R x y → f.Distinct → (x.same y = true ↔ x = y)
  | .scalar _ hLeaf, _ => h _ _ _ hLeaf
  | .list _ hLeaves, _ => by rw [Json.same, sameElements_iff h hLeaves, Json.arr.injEq]
  | .union hLeaf, _ => h _ _ _ hLeaf
  | .nested hItems, hDistinct => by
    rw [Json.same, hItems.same_iff h hDistinct.1 hDistinct.2, Json.arr.injEq]

theorem LeafwiseItems.same_iff (h : ∀ kinds a b, R kinds a b → (a.same b = true ↔ a = b))
    {fields : List (String × Form)} {xs ys : List Json} : LeafwiseItems R fields xs ys →
    (Entries.names fields).Nodup → DistinctAll fields → (Json.sameElements xs ys = true ↔ xs = ys)
  | .nil, _, _ => by simp [Json.sameElements]
  | .cons (x := x) (y := y) hFields hItems, hNodup, hDistinct => by
    have hRecord : (Json.obj x).same (.obj y) = true ↔ x = y := by
      rw [Json.same, Bool.and_eq_true, hFields.same_iff h hNodup hDistinct, beq_iff_eq]
      exact and_iff_right_of_imp (congrArg List.length)
    rw [Json.sameElements, Bool.and_eq_true, hRecord, hItems.same_iff h hNodup hDistinct,
      List.cons.injEq, Json.obj.injEq]

theorem LeafwiseFields.same_iff (h : ∀ kinds a b, R kinds a b → (a.same b = true ↔ a = b))
    {fields : List (String × Form)} {xs ys : Record} : LeafwiseFields R fields xs ys →
    (Entries.names fields).Nodup → DistinctAll fields → (Json.sameEntries xs ys = true ↔ xs = ys)
  | .nil, _, _ => by simp [Json.sameEntries]
  | .present hLeaf hRest, hNodup, hDistinct => by
    obtain ⟨hFresh, hRestNodup⟩ := List.nodup_cons.mp hNodup
    rw [Json.sameEntries, sameEntries_cons_of_not_mem fun hMem => hFresh (hRest.names_subset hMem),
      List.lookup_cons_self, Option.any_some, Bool.and_eq_true, hLeaf.same_iff h hDistinct.1,
      hRest.same_iff h hRestNodup hDistinct.2, List.cons.injEq, Prod.mk.injEq]
    simp
  | .absent _ _ _ hRest, hNodup, hDistinct =>
    hRest.same_iff h (List.nodup_cons.mp hNodup).2 hDistinct.2

end

theorem LeafwiseItems.of_forall₂ {fields : List (String × Form)} {xs ys : List Json}
    (h : List.Forall₂ (fun x y => ∃ entries record, x = .obj entries ∧ y = .obj record ∧
      LeafwiseFields R fields entries record) xs ys) : LeafwiseItems R fields xs ys := by
  induction h with
  | nil => exact .nil
  | cons hHead _ ih =>
    obtain ⟨entries, record, rfl, rfl, hFields⟩ := hHead
    exact .cons hFields ih

end Structure

end Form

section Again

variable {first second : Options} {R : Form.LeafRelation}

/-- What the first mode reads the second reads again, and the two stand in a relation. -/
def Kind.ReadsAgain (first second : Mode) (R : Form.LeafRelation) : Prop :=
  ∀ kinds value out, FitsFirst first value kinds out →
    ∃ again, FitsFirst second out kinds again ∧ R kinds out again

theorem Walk.fieldsOf_congr (options : Options) (level : Nat) {fields : List (String × Form)}
    {xs ys : Record} (h : ∀ name ∈ Entries.names fields, xs.lookup name = ys.lookup name) :
    fieldsOf options fields level xs = fieldsOf options fields level ys := by
  induction fields with
  | nil => rfl
  | cons field rest ih =>
    obtain ⟨name, f⟩ := field
    have hRest := ih fun other hMem => h other (List.mem_cons_of_mem _ hMem)
    rw [fieldsOf, fieldsOf, h name List.mem_cons_self, hRest]

theorem Walk.fieldsOf_cons_of_not_mem {options : Options} {level : Nat}
    {fields : List (String × Form)} {name : String} {x : Json} {xs : Record}
    (h : name ∉ Entries.names fields) :
    fieldsOf options fields level ((name, x) :: xs) = fieldsOf options fields level xs := by
  apply fieldsOf_congr
  intro other hOther
  have hNe : other ≠ name := fun hEq => h (hEq ▸ hOther)
  rw [List.lookup_cons, beq_false_of_ne hNe]

theorem Walk.record_again (hDepth : first.maxDepth = second.maxDepth) {level : Nat}
    {fields : List (String × Form)} (hFields : ∀ entries outs,
      fieldsOf first fields level entries = .ok outs → ∃ again,
        fieldsOf second fields level outs = .ok again ∧ Form.LeafwiseFields R fields outs again)
    {input : Json} {out : Record}
    (h : record first level (fieldsOf first fields level) input = .ok out) :
    ∃ again, record second level (fieldsOf second fields level) (.obj out) = .ok again ∧
      Form.LeafwiseFields R fields out again := by
  obtain ⟨hLevel, entries, _, hOut⟩ := record_eq_ok_iff.mp h
  obtain ⟨again, hAgain, hLeaves⟩ := hFields entries out hOut
  rw [hDepth] at hLevel
  exact ⟨again, record_eq_ok_iff.mpr ⟨hLevel, out, rfl, hAgain⟩, hLeaves⟩

mutual

/-- What the first walk gives the second takes, at the same level and leaf by leaf. -/
theorem Form.exists_again (hReads : Kind.ReadsAgain first.mode second.mode R)
    (hDepth : first.maxDepth = second.maxDepth) : (f : Form) → f.Distinct → (level : Nat) →
    (value out : Json) → Walk.form first f level value = .ok out →
    ∃ again, Walk.form second f level out = .ok again ∧ f.Leafwise R out again
  | .scalar tag, _, level, value, out, h => by
    cases hArray : tag.array with
    | false =>
      obtain ⟨again, hAgain, hLeaf⟩ := hReads _ _ _ ((Walk.form_tag_eq_ok_iff hArray).mp h)
      exact ⟨again, (Walk.form_tag_eq_ok_iff hArray).mpr hAgain, .scalar hArray hLeaf⟩
    | true =>
      obtain ⟨elements, outs, _, rfl, hOuts⟩ := (Walk.form_list_eq_ok_iff hArray).mp h
      obtain ⟨agains, hAgains⟩ := exists_forall₂ (hReads [tag.kind]) hOuts
      refine ⟨.arr agains, (Walk.form_list_eq_ok_iff hArray).mpr ⟨outs, agains, rfl, rfl, ?_⟩, ?_⟩
      · exact hAgains.imp fun _ _ hAgain => hAgain.1
      · exact .list hArray (hAgains.imp fun _ _ hAgain => hAgain.2)
  | .union kinds, _, level, value, out, h => by
    obtain ⟨_, hOut⟩ := Walk.form_union_eq_ok_iff.mp h
    obtain ⟨again, hAgain, hLeaf⟩ := hReads _ _ _ hOut
    exact ⟨again, Walk.form_union_eq_ok_iff.mpr ⟨hOut.isArray_eq_false, hAgain⟩, .union hLeaf⟩
  | .nested fields, hDistinct, level, value, out, h => by
    obtain ⟨items, outs, _, rfl, hOuts⟩ := Walk.form_nested_eq_ok_iff.mp h
    have hItem : ∀ item out, (∃ record, Walk.record first (level + 1)
        (Walk.fieldsOf first fields (level + 1)) item = .ok record ∧ out = .obj record) →
        ∃ again, ∃ record next : Record, out = .obj record ∧ again = Json.obj next ∧
          Walk.record second (level + 1) (Walk.fieldsOf second fields (level + 1)) out = .ok next ∧
            LeafwiseFields R fields record next := by
      rintro item out ⟨record, hRecord, rfl⟩
      obtain ⟨next, hNext, hLeaves⟩ := Walk.record_again hDepth
        (Form.exists_againFields hReads hDepth fields hDistinct.1 hDistinct.2 (level + 1)) hRecord
      exact ⟨.obj next, record, next, rfl, rfl, hNext, hLeaves⟩
    obtain ⟨agains, hAgains⟩ := exists_forall₂ hItem hOuts
    refine ⟨.arr agains, Walk.form_nested_eq_ok_iff.mpr ⟨outs, agains, rfl, rfl, ?_⟩, ?_⟩
    · refine hAgains.imp ?_
      rintro item again ⟨record, next, _, rfl, hNext, _⟩
      exact ⟨next, hNext, rfl⟩
    · refine .nested (.of_forall₂ (hAgains.imp ?_))
      rintro item again ⟨record, next, hItem, hAgain, _, hLeaves⟩
      exact ⟨record, next, hItem, hAgain, hLeaves⟩

theorem Form.exists_againFields (hReads : Kind.ReadsAgain first.mode second.mode R)
    (hDepth : first.maxDepth = second.maxDepth) : (fields : List (String × Form)) →
    (Entries.names fields).Nodup → DistinctAll fields → (level : Nat) → (entries outs : Record) →
    Walk.fieldsOf first fields level entries = .ok outs →
    ∃ again, Walk.fieldsOf second fields level outs = .ok again ∧ LeafwiseFields R fields outs again
  | [], _, _, level, entries, outs, h => by
    cases h
    exact ⟨[], rfl, .nil⟩
  | (name, f) :: rest, hNodup, hDistinct, level, entries, outs, h => by
    obtain ⟨hFresh, hRestNodup⟩ := List.nodup_cons.mp hNodup
    rcases Walk.fieldsOf_cons_eq_ok_iff.mp h with
      ⟨value, out, tail, _, hOut, hTail, rfl⟩ | ⟨_, hOptional, hOuts⟩
    · obtain ⟨again, hAgain, hLeaf⟩ :=
        Form.exists_again hReads hDepth f hDistinct.1 level value out hOut
      obtain ⟨agains, hAgains, hLeaves⟩ := Form.exists_againFields hReads hDepth rest hRestNodup
        hDistinct.2 level entries tail hTail
      refine ⟨(name, again) :: agains, Walk.fieldsOf_cons_eq_ok_iff.mpr (Or.inl ?_),
        .present hLeaf hLeaves⟩
      exact ⟨out, again, agains, List.lookup_cons_self, hAgain,
        (Walk.fieldsOf_cons_of_not_mem hFresh).trans hAgains, rfl⟩
    · obtain ⟨agains, hAgains, hLeaves⟩ := Form.exists_againFields hReads hDepth rest hRestNodup
        hDistinct.2 level entries outs hOuts
      have hAbsent : name ∉ Entries.names outs := fun hMem => hFresh (hLeaves.names_subset hMem)
      refine ⟨agains, Walk.fieldsOf_cons_eq_ok_iff.mpr (Or.inr ⟨?_, hOptional, hAgains⟩), ?_⟩
      · exact Entries.lookup_eq_none_iff.mpr hAbsent
      · exact .absent hOptional hAbsent (hLeaves.names_eq ▸ hAbsent) hLeaves

end

end Again

end Conform
