import Conform.Proofs.Failures
import Conform.Proofs.Leafwise
import Conform.Proofs.Pruning

/-! # Strict and lenient coercion

Lenient coercion goes at least as far into an input as strict coercion. Where strict coercion accepts,
lenient coercion accepts a record of the same shape, in which the same kinds read each leaf from the
native one. Where strict coercion faults, lenient coercion faults the same. So lenient coercion never
rejects an input before the position at which strict coercion does.
-/

set_option autoImplicit false

namespace Conform

namespace Kind

/-- The first leaf is native, and lenient mode reads the second from it. -/
def Reread (kinds : List Kind) (native out : Json) : Prop :=
  FitsFirst .strict native kinds native ∧ FitsFirst .lenient native kinds out

section Reading

variable {value out : Json} {kind : Kind} {kinds : List Kind}

theorem FitsFirst.exists_lenient (h : FitsFirst .strict value kinds out) :
    ∃ other, FitsFirst .lenient value kinds other := by
  obtain ⟨kind, hMem, hFits⟩ := h.exists_fits
  exact exists_fitsFirst ⟨kind, hMem, hFits.exists_lenient⟩

theorem readsAgain_reread : ReadsAgain .strict .lenient Reread := by
  intro kinds value out h
  obtain rfl := h.eq_of_strict
  obtain ⟨other, hOther⟩ := h.exists_lenient
  exact ⟨other, hOther, h, hOther⟩

/-- Mixed apart, a kind that takes a native value takes it unchanged in lenient mode. -/
theorem Fits.lenient_of_strict (h : kind.Fits .strict value out) (hKind : kind ≠ .mixed) :
    kind.Fits .lenient value out := by
  obtain rfl := h.eq_of_strict
  cases h with
  | int _ hWhole => exact .int (.number _) hWhole
  | float _ => exact .float (.number _)
  | boolean _ => exact .boolean (.boolean _)
  | string _ => exact .string rfl
  | null _ => exact .null .null
  | mixedNumber _ | mixedBoolean _ _ | mixedNull _ _ _ | mixedString _ _ _ _ =>
    exact absurd rfl hKind

theorem Reread.eq (h : Reread [kind] value out) (hKind : kind ≠ .mixed) : value = out := by
  have hNative := (fitsFirst_singleton_iff.mp h.1).lenient_of_strict hKind
  exact hNative.eq (fitsFirst_singleton_iff.mp h.2)

theorem unread?_lenient (h : unread? .strict kinds value = none) :
    unread? .lenient kinds value = none := by
  obtain ⟨_, hOut⟩ := unread?_eq_none_iff.mp h
  exact unread?_eq_none_iff.mpr hOut.exists_lenient

end Reading

end Kind

section Accepted

variable {maxDepth level : Nat}

theorem same_maxDepth (maxDepth : Nat) : ({ mode := .strict, maxDepth } : Options).maxDepth =
    ({ mode := .lenient, maxDepth } : Options).maxDepth := rfl

/-- Strict coercion returns the pruning of its input, and lenient coercion reads the two alike. -/
theorem Form.exists_lenient {f : Form} (hDistinct : f.Distinct) {value native : Json}
    (h : Walk.form { mode := .strict, maxDepth } f level value = .ok native) :
    ∃ out, Walk.form { mode := .lenient, maxDepth } f level value = .ok out ∧
      f.Leafwise Kind.Reread native out := by
  have hAgain : ∃ out, Walk.form { mode := .lenient, maxDepth } f level native = .ok out ∧
      f.Leafwise Kind.Reread native out :=
    Form.exists_again Kind.readsAgain_reread (same_maxDepth maxDepth) f hDistinct level value native h
  obtain ⟨out, hOut, hLeaves⟩ := hAgain
  refine ⟨out, ?_, hLeaves⟩
  rw [← hOut, Walk.eq_prune_of_form f level value native h, Walk.form_prune f hDistinct]

theorem Walk.exists_lenient_record {fields : List (String × Form)}
    (hDistinct : (Form.nested fields).Distinct) {input : Json} {native : Record}
    (h : record { mode := .strict, maxDepth } level
      (fieldsOf { mode := .strict, maxDepth } fields level) input = .ok native) :
    ∃ out, record { mode := .lenient, maxDepth } level
        (fieldsOf { mode := .lenient, maxDepth } fields level) input = .ok out ∧
      Form.LeafwiseFields Kind.Reread fields native out := by
  have hAgain : ∃ out, record { mode := .lenient, maxDepth } level
      (fieldsOf { mode := .lenient, maxDepth } fields level) (.obj native) = .ok out ∧
      Form.LeafwiseFields Kind.Reread fields native out :=
    record_again (same_maxDepth maxDepth) (Form.exists_againFields Kind.readsAgain_reread
      (same_maxDepth maxDepth) fields hDistinct.1 hDistinct.2 level) h
  obtain ⟨out, hOut, hLeaves⟩ := hAgain
  refine ⟨out, ?_, hLeaves⟩
  rw [← hOut, obj_eq_mapRecord (eq_pruneFields_of_fieldsOf fields level) h,
    record_pruneFields hDistinct]

end Accepted

namespace Form

/-- Every leaf is a tag, and none of them is mixed. -/
def Plain (leaves : List Form) : Prop := ∀ leaf ∈ leaves, ∃ tag, leaf = .scalar tag ∧ tag.kind ≠ .mixed

section Identical

variable {R : LeafRelation}

theorem Plain.kind_ne_mixed {tag : Tag} (h : Plain (leaves (.scalar tag))) : tag.kind ≠ .mixed := by
  obtain ⟨_, hTag, hKind⟩ := h (.scalar tag) (List.mem_singleton.mpr rfl)
  cases hTag
  exact hKind

mutual

/-- Without unions and without mixed it is enough to know that single kinds change nothing. -/
theorem Leafwise.eq_of_plain (h : ∀ kind a b, kind ≠ .mixed → R [kind] a b → a = b) {f : Form}
    {x y : Json} : f.Leafwise R x y → Plain f.leaves → x = y
  | .scalar _ hLeaf, hPlain => h _ _ _ hPlain.kind_ne_mixed hLeaf
  | .list _ hLeaves, hPlain => by
    have hEq := hLeaves.imp fun _ _ => h _ _ _ hPlain.kind_ne_mixed
    rw [List.forall₂_eq_eq_eq] at hEq
    rw [hEq]
  | @Leafwise.union _ kinds _ _ _, hPlain => by
    obtain ⟨_, hTag, _⟩ := hPlain (.union kinds) (List.mem_singleton.mpr rfl)
    cases hTag
  | .nested hItems, hPlain => by rw [hItems.eq_of_plain h hPlain]

theorem LeafwiseItems.eq_of_plain (h : ∀ kind a b, kind ≠ .mixed → R [kind] a b → a = b)
    {fields : List (String × Form)} {xs ys : List Json} :
    LeafwiseItems R fields xs ys → Plain (leavesOf fields) → xs = ys
  | .nil, _ => rfl
  | .cons hFields hItems, hPlain => by rw [hFields.eq_of_plain h hPlain, hItems.eq_of_plain h hPlain]

theorem LeafwiseFields.eq_of_plain (h : ∀ kind a b, kind ≠ .mixed → R [kind] a b → a = b)
    {fields : List (String × Form)} {xs ys : Record} :
    LeafwiseFields R fields xs ys → Plain (leavesOf fields) → xs = ys
  | .nil, _ => rfl
  | .present hLeaf hRest, hPlain => by
    rw [hLeaf.eq_of_plain h fun leaf hMem => hPlain leaf (List.mem_append_left _ hMem),
      hRest.eq_of_plain h fun leaf hMem => hPlain leaf (List.mem_append_right _ hMem)]
  | .absent _ _ _ hRest, hPlain =>
    hRest.eq_of_plain h fun leaf hMem => hPlain leaf (List.mem_append_right _ hMem)

end

end Identical

end Form

/-- Two elements of a list are one, or one stands before the other. -/
theorem eq_or_mem_of_splits {α : Type} {a b : α} {front back otherFront otherBack : List α}
    (h : front ++ a :: back = otherFront ++ b :: otherBack) :
    front = otherFront ∧ a = b ∨ a ∈ otherFront ∨ b ∈ front := by
  rcases List.append_eq_append_iff.mp h with ⟨between, rfl, hRest⟩ | ⟨between, rfl, hRest⟩
  · cases between with
    | nil => exact Or.inl ⟨(List.append_nil _).symm, (List.cons.inj hRest).1⟩
    | cons first others =>
      obtain rfl := (List.cons.inj hRest).1
      exact Or.inr (Or.inl (List.mem_append_right _ List.mem_cons_self))
  · cases between with
    | nil => exact Or.inl ⟨List.append_nil _, (List.cons.inj hRest).1.symm⟩
    | cons first others =>
      obtain rfl := (List.cons.inj hRest).1
      exact Or.inr (Or.inr (List.mem_append_right _ List.mem_cons_self))

namespace Place

/-- Document order. One path comes before another if they part at some place, where the first takes the
earlier part. -/
inductive Precedes (mode : Mode) : Place → Path → Path → Prop
  | here {place : Place} {a b : String} {p q : Path} :
      [a, b].Sublist (Entries.names (place.parts mode)) → Precedes mode place (a :: p) (b :: q)
  | inside {place part : Place} {token : String} {p q : Path} :
      (place.parts mode).lookup token = some part → Precedes mode part p q →
      Precedes mode place (token :: p) (token :: q)

section Lenient

variable {maxDepth : Nat} {place : Place} {path other : Path} {reason : Reason}

theorem stop?_lenient (hDistinct : place.Distinct)
    (h : place.stop? { mode := .strict, maxDepth } = none) :
    place.stop? { mode := .lenient, maxDepth } = none := by
  cases place with
  | record level fields value =>
    obtain ⟨native, hNative⟩ := Walk.stop?_eq_none_iff.mp h
    obtain ⟨out, hOut, _⟩ := Walk.exists_lenient_record hDistinct hNative
    exact Walk.stop?_eq_none_iff.mpr ⟨out, hOut⟩
  | field level form value =>
    obtain ⟨native, hNative⟩ := Walk.stop?_eq_none_iff.mp h
    obtain ⟨out, hOut, _⟩ := Form.exists_lenient hDistinct hNative
    exact Walk.stop?_eq_none_iff.mpr ⟨out, hOut⟩
  | element kind value =>
    obtain ⟨native, hNative⟩ := Walk.stop?_eq_none_iff.mp h
    obtain ⟨out, hOut⟩ := (Walk.read_eq_ok_iff.mp hNative).exists_lenient
    exact Walk.stop?_eq_none_iff.mpr ⟨out, Walk.read_eq_ok_iff.mpr hOut⟩
  | missing form => exact h

/-- What strict mode does not refuse, lenient mode does not refuse either, and it has the same parts. -/
theorem refusal?_lenient_of_none (h : place.refusal? { mode := .strict, maxDepth } = none) :
    place.refusal? { mode := .lenient, maxDepth } = none ∧
      place.parts .lenient = place.parts .strict := by
  cases place with
  | record level fields value => exact ⟨h, by cases value <;> rfl⟩
  | field level form value =>
    cases form with
    | scalar tag =>
      rw [refusal?] at h ⊢
      rw [parts, parts]
      cases hArray : tag.array with
      | true =>
        rw [hArray, if_pos rfl] at h
        cases value with
        | arr elements => exact ⟨rfl, rfl⟩
        | null | bool _ | num _ | str _ | obj _ => cases h
      | false =>
        rw [hArray] at h
        exact ⟨Kind.unread?_lenient h, rfl⟩
    | union kinds =>
      rw [refusal?] at h ⊢
      cases hValue : value.isArray with
      | true => simp [hValue] at h
      | false =>
        rw [hValue] at h
        exact ⟨Kind.unread?_lenient h, rfl⟩
    | nested fields => exact ⟨h, by cases value <;> rfl⟩
  | element kind value => exact ⟨Kind.unread?_lenient h, rfl⟩
  | missing form => exact ⟨h, rfl⟩

/-- Whatever strict mode makes a fault of, lenient mode makes the same fault of. -/
theorem refusal?_lenient_of_fault (h : place.refusal? { mode := .strict, maxDepth } = some reason)
    (hFault : reason ≠ .rejected) :
    place.refusal? { mode := .lenient, maxDepth } = some reason := by
  cases reason with
  | rejected => exact absurd rfl hFault
  | notScalar => exact refusal?_eq_notScalar_iff.mpr (refusal?_eq_notScalar_iff.mp h)
  | depthExceeded =>
    obtain ⟨level, fields, value, rfl, hLimit, hLevel⟩ := refusal?_eq_depthExceeded_iff.mp h
    exact refusal?_eq_depthExceeded_iff.mpr ⟨level, fields, value, rfl, hLimit, hLevel⟩

theorem Stops.lenient_of_fault (h : place.Stops { mode := .strict, maxDepth } path reason)
    (hFault : reason ≠ .rejected) (hDistinct : place.Distinct) :
    place.Stops { mode := .lenient, maxDepth } path reason := by
  induction h with
  | here hRefusal => exact .here (refusal?_lenient_of_fault hRefusal hFault)
  | inside hRefusal hParts hFront _ ih =>
    obtain ⟨hLenient, hSame⟩ := refusal?_lenient_of_none hRefusal
    obtain ⟨hFrontDistinct, hPartDistinct⟩ := distinct_of_parts hDistinct hParts
    refine .inside hLenient (hSame.trans hParts) ?_ (ih hFault hPartDistinct)
    exact fun entry hEntry => stop?_lenient (hFrontDistinct entry hEntry) (hFront entry hEntry)

/-- A strict stop stands at a prefix of the path of a lenient one or before it. -/
theorem Stops.prefix_or_precedes (h : place.Stops { mode := .strict, maxDepth } path reason)
    (hDistinct : place.Distinct) {second : Reason}
    (hLenient : place.Stops { mode := .lenient, maxDepth } other second) :
    path <+: other ∨ place.Precedes .lenient path other := by
  induction h generalizing other with
  | here _ => exact Or.inl List.nil_prefix
  | @inside place part front back token path _ hRefusal hParts hFront _ ih =>
    -- Both stops lie in parts of one place. Where these differ, lenient mode cannot enter the earlier one,
    -- since it coerces whatever strict mode coerces.
    obtain ⟨hNone, hSame⟩ := refusal?_lenient_of_none hRefusal
    obtain ⟨hFrontDistinct, hPartDistinct⟩ := distinct_of_parts hDistinct hParts
    cases hLenient with
    | here hOther =>
      rw [hNone] at hOther
      cases hOther
    | @inside _ otherPart otherFront otherBack otherToken rest _ _ hOtherParts hOtherFront hStops =>
      have hSplit : front ++ (token, part) :: back =
          otherFront ++ (otherToken, otherPart) :: otherBack := by
        rw [← hParts, ← hOtherParts]
        exact hSame.symm
      rcases eq_or_mem_of_splits hSplit with ⟨rfl, hEq⟩ | hBefore | hAfter
      · cases hEq
        rcases ih hPartDistinct hStops with hPrefix | hPrecedes
        · exact Or.inl (List.cons_prefix_cons.mpr ⟨rfl, hPrefix⟩)
        · exact Or.inr (.inside (lookup_parts hDistinct hOtherParts).1 hPrecedes)
      · refine Or.inr (.here ?_)
        rw [hOtherParts, Entries.names, List.map_append]
        have hToken : token ∈ otherFront.map Prod.fst := Entries.mem_names_of_mem hBefore
        exact (List.singleton_sublist.mpr hToken).append
          (List.singleton_sublist.mpr List.mem_cons_self)
      · have hStopped := stop?_lenient (hFrontDistinct _ hAfter) (hFront _ hAfter)
        rw [stop?_eq_some_iff.mpr hStops] at hStopped
        cases hStopped

end Lenient

end Place

namespace Schema

section Lenient

variable {schema : Schema} {input : Json} {maxDepth : Nat}

theorem exists_lenient_accepted {native : Record}
    (h : schema.coerce input { mode := .strict, maxDepth } = .accepted native) :
    ∃ record, schema.coerce input { mode := .lenient, maxDepth } = .accepted record ∧
      Form.LeafwiseFields Kind.Reread schema.fields native record := by
  rw [coerce_eq_accepted_iff, walk] at h
  obtain ⟨record, hRecord, hLeaves⟩ := Walk.exists_lenient_record schema.distinct h
  exact ⟨record, coerce_eq_accepted_iff.mpr hRecord, hLeaves⟩

theorem lenient_faulted {cause : Fault}
    (h : schema.coerce input { mode := .strict, maxDepth } = .faulted cause) :
    schema.coerce input { mode := .lenient, maxDepth } = .faulted cause := by
  obtain ⟨path, reason, hStops, hCause⟩ := coerce_eq_faulted_iff.mp h
  have hFault : reason ≠ .rejected := by
    rintro rfl
    cases hCause
  exact coerce_eq_faulted_iff.mpr
    ⟨path, reason, hStops.lenient_of_fault hFault (schema.distinct_root input), hCause⟩

/-- Lenient coercion extends strict coercion: it accepts what strict coercion accepts, with a record of
the same shape, it faults where strict coercion faults, and it does not reject any earlier. -/
theorem lenient_extends_strict (schema : Schema) (input : Json) (maxDepth : Nat) :
    (∀ native, schema.coerce input { mode := .strict, maxDepth } = .accepted native →
      ∃ record, schema.coerce input { mode := .lenient, maxDepth } = .accepted record ∧
        Form.LeafwiseFields Kind.Reread schema.fields native record ∧
        (Form.Plain schema.leaves → record = native)) ∧
    (∀ cause, schema.coerce input { mode := .strict, maxDepth } = .faulted cause →
      schema.coerce input { mode := .lenient, maxDepth } = .faulted cause) ∧
    (∀ path, schema.coerce input { mode := .lenient, maxDepth } = .rejected path →
      ∃ earlier, schema.coerce input { mode := .strict, maxDepth } = .rejected earlier ∧
        (earlier <+: path ∨ (schema.root input).Precedes .lenient earlier path)) := by
  refine ⟨?_, fun cause => lenient_faulted, ?_⟩
  · intro native h
    obtain ⟨record, hRecord, hLeaves⟩ := exists_lenient_accepted h
    refine ⟨record, hRecord, hLeaves, ?_⟩
    intro hPlain
    exact (hLeaves.eq_of_plain (fun _ _ _ hKind hLeaf => hLeaf.eq hKind) hPlain).symm
  · intro path h
    cases hStrict : schema.coerce input { mode := .strict, maxDepth } with
    | accepted native =>
      obtain ⟨record, hRecord, _⟩ := exists_lenient_accepted hStrict
      rw [h] at hRecord
      cases hRecord
    | faulted cause =>
      rw [lenient_faulted hStrict] at h
      cases h
    | rejected earlier =>
      exact ⟨earlier, rfl, (coerce_eq_rejected_iff.mp hStrict).prefix_or_precedes
        (schema.distinct_root input) (coerce_eq_rejected_iff.mp h)⟩

def nativeRows (cell : Number) : Record :=
  [("rows", .arr [.obj [("cells", .arr [.num cell])]])]

-- Native rows stay as they are, and a list where mixed stands is a fault in both modes. On rows of texts
-- strict coercion stops at the first text, lenient coercion at a piece of the second.
theorem lenient_extends_strict_rows :
    (∃ record, rowsSchema.coerce (.obj (nativeRows (.int 1 (by decide)))) { mode := .lenient } =
        .accepted record ∧ record = nativeRows (.int 1 (by decide))) ∧
    (ofFields [("a", .scalar { kind := .mixed })]).coerce (.obj [("a", .arr [])])
      { mode := .lenient } = .faulted (.notScalar ["a"]) ∧
    rowsSchema.coerce rowsInput { mode := .lenient } = .rejected ["rows", "1", "cells", "1"] ∧
    ∃ earlier, rowsSchema.coerce rowsInput {} = .rejected earlier ∧
      (earlier <+: ["rows", "1", "cells", "1"] ∨
        (rowsSchema.root rowsInput).Precedes .lenient earlier ["rows", "1", "cells", "1"]) := by
  have hNative : rowsSchema.coerce (.obj (nativeRows (.int 1 (by decide)))) {} =
      .accepted (nativeRows (.int 1 (by decide))) := by decide +kernel
  have hLeaves : rowsSchema.leaves =
      [.scalar { kind := .string, optional := true }, .scalar { kind := .int, array := true }] := by
    decide +kernel
  have hPlain : Form.Plain rowsSchema.leaves := by
    simp [hLeaves, Form.Plain]
  obtain ⟨record, hRecord, _, hSame⟩ := (lenient_extends_strict _ _ 0).1 _ hNative
  have hRejected : rowsSchema.coerce rowsInput { mode := .lenient } =
      .rejected ["rows", "1", "cells", "1"] := by decide +kernel
  exact ⟨⟨record, hRecord, hSame hPlain⟩,
    (lenient_extends_strict _ _ 0).2.1 _ (by decide +kernel),
    hRejected, (lenient_extends_strict _ _ 0).2.2 _ hRejected⟩

end Lenient

end Schema

end Conform
