import Conform.Proofs.Failures

/-! # Mixed as a union

Mixed reads what the first of float, boolean, null and string reads. Int may stand before float, since it
reads fewer values and those as the same numbers. On lists and objects the two differ: mixed makes a fault
of them and a union does not.
-/

set_option autoImplicit false

namespace Conform

namespace Kind

section Choice

variable {mode : Mode} {value out : Json} {kind other : Kind} {rest : List Kind}

theorem Fits.float_of_int (h : Kind.int.Fits mode value out) : Kind.float.Fits mode value out := by
  cases h with
  | int hNumber _ => exact .float hNumber

theorem not_fits_float (h : ∀ n, ¬ value.DenotesNumber mode n) :
    ¬ Kind.float.Fits mode value out := by
  rintro (_ | hNumber)
  exact h _ hNumber

theorem not_fits_boolean (h : ∀ b, ¬ value.DenotesBoolean mode b) :
    ¬ Kind.boolean.Fits mode value out := by
  rintro (_ | _ | hBoolean)
  exact h _ hBoolean

theorem not_fits_null (h : ¬ value.DenotesNull mode) : ¬ Kind.null.Fits mode value out := by
  rintro (_ | _ | _ | _ | hNull)
  exact h hNull

theorem Fits.fitsFirst_of_mixed (h : Kind.mixed.Fits mode value out) :
    FitsFirst mode value [.float, .boolean, .null, .string] out := by
  cases h with
  | mixedNumber hn => exact .here (.float hn)
  | mixedBoolean hn hb => exact .later (fun _ => not_fits_float hn) (.here (.boolean hb))
  | mixedNull hn hb hNull =>
    exact .later (fun _ => not_fits_float hn) (.later (fun _ => not_fits_boolean hb)
      (.here (.null hNull)))
  | mixedString hn hb hNull hText =>
    exact .later (fun _ => not_fits_float hn) (.later (fun _ => not_fits_boolean hb)
      (.later (fun _ => not_fits_null hNull) (.here (.string hText))))

/-- Both choices give one value at most, and where a kind of the union fits, mixed does. -/
theorem mixed_fits_iff_fitsFirst : Kind.mixed.Fits mode value out ↔
    FitsFirst mode value [.float, .boolean, .null, .string] out := by
  constructor
  · exact Fits.fitsFirst_of_mixed
  · intro h
    obtain ⟨_, _, hMember⟩ := h.exists_fits
    obtain ⟨read, hMixed⟩ := exists_fits_mixed hMember
    obtain rfl : out = read := h.eq hMixed.fitsFirst_of_mixed
    exact hMixed

/-- In front of a kind that reads whatever it reads, a kind decides nothing. -/
theorem fitsFirst_cons_iff_of_imp
    (h : ∀ out, kind.Fits mode value out → other.Fits mode value out) :
    FitsFirst mode value (kind :: other :: rest) out ↔ FitsFirst mode value (other :: rest) out := by
  constructor
  · rintro (hHere | ⟨_, hRest⟩)
    · exact .here (h _ hHere)
    · exact hRest
  · intro hRest
    by_cases hKind : ∃ read, kind.Fits mode value read
    · obtain ⟨read, hRead⟩ := hKind
      obtain rfl : out = read := hRest.eq (.here (h _ hRead))
      exact .here hRead
    · exact .later (fun read hRead => hKind ⟨read, hRead⟩) hRest

end Choice

end Kind

namespace Engine

section Runs

variable (state : State) (kind : Kind) (kinds : List Kind) (value : Json)

theorem scalar_run : (scalar kind value).run state =
    match kind.read? state.options.mode value with
    | some out => .ok out state
    | none => .error ((Kind.refusal [kind]).failure state.cursor.path) state := by
  rw [scalar, EStateM.run_bind, EStateM.run_get]
  dsimp only
  cases hRead : kind.read? state.options.mode value with
  | some out =>
    rw [Kind.coerce_of_fits state.cursor.path (Kind.read?_eq_some_iff.mp hRead)]
    rfl
  | none =>
    rw [Kind.coerce_of_not_fits state.cursor.path (Kind.read?_eq_none_iff.mp hRead)]
    rfl

theorem union_run : (union kinds value).run state =
    if value.isArray then .error .rejected state
    else
      match Kind.readFirst? state.options.mode value kinds with
      | some out => .ok out state
      | none => .error ((Kind.refusal kinds).failure state.cursor.path) state := by
  rw [union, EStateM.run_bind, EStateM.run_get]
  dsimp only
  rw [Kind.coerceUnion, Kind.coerceFirst_eq]
  cases value.isArray with
  | true => rfl
  | false => cases Kind.readFirst? state.options.mode value kinds <;> rfl

variable {kind kinds value} {out : Json}

theorem scalar_run_eq_ok_iff : (scalar kind value).run state = .ok out state ↔
    kind.Fits state.options.mode value out := by
  rw [scalar_run, ← Kind.read?_eq_some_iff]
  cases kind.read? state.options.mode value <;> simp

theorem union_run_eq_ok_iff (hArray : value.isArray = false) :
    (union kinds value).run state = .ok out state ↔
      Kind.FitsFirst state.options.mode value kinds out := by
  rw [union_run, hArray, if_neg Bool.false_ne_true, ← Kind.readFirst?_eq_some_iff]
  cases Kind.readFirst? state.options.mode value kinds <;> simp

theorem mixed_run_of_isCompound (h : value.isCompound = true) :
    (scalar .mixed value).run state = .error (.fault (.notScalar state.cursor.path)) state := by
  rw [scalar_run, Kind.read?_eq_none_iff.mpr fun _ => Kind.not_fits_of_isCompound h]
  rfl

theorem union_run_of_isCompound (h : value.isCompound = true) (hMixed : .mixed ∉ kinds) :
    (union kinds value).run state = .error .rejected state := by
  rw [union_run, Kind.readFirst?_of_isCompound h, Kind.refusal, if_neg hMixed]
  cases value.isArray <;> rfl

end Runs

/-- Coercing as mixed and as a union of the kinds that mixed tries, with or without int before float, gives
the same value for every scalar, and always one. For a list or an object mixed is a fault at the cursor,
and the unions reject. What int reads, float reads as the same number. -/
theorem mixed_run_eq_union_run (value : Json) (state : State) :
    (value.isCompound = false → ∃ out,
      (scalar .mixed value).run state = .ok out state ∧
      (union [.float, .boolean, .null, .string] value).run state = .ok out state ∧
      (union [.int, .float, .boolean, .null, .string] value).run state = .ok out state) ∧
    (value.isCompound = true →
      (scalar .mixed value).run state = .error (.fault (.notScalar state.cursor.path)) state ∧
      (union [.float, .boolean, .null, .string] value).run state = .error .rejected state ∧
      (union [.int, .float, .boolean, .null, .string] value).run state =
        .error .rejected state) ∧
    ∀ out, (scalar .int value).run state = .ok out state →
      (scalar .float value).run state = .ok out state := by
  refine ⟨?_, ?_, ?_⟩
  · intro hScalar
    have hArray : value.isArray = false := by
      cases value with
      | arr _ => cases hScalar
      | null | bool _ | num _ | str _ | obj _ => rfl
    obtain ⟨out, hMixed⟩ := @Kind.exists_fits_mixed_of_scalar state.options.mode _ hScalar
    have hUnion := Kind.mixed_fits_iff_fitsFirst.mp hMixed
    refine ⟨out, (scalar_run_eq_ok_iff _).mpr hMixed, (union_run_eq_ok_iff _ hArray).mpr hUnion,
      (union_run_eq_ok_iff _ hArray).mpr ?_⟩
    exact (Kind.fitsFirst_cons_iff_of_imp fun _ => Kind.Fits.float_of_int).mpr hUnion
  · intro hCompound
    exact ⟨mixed_run_of_isCompound state hCompound,
      union_run_of_isCompound state hCompound (by decide),
      union_run_of_isCompound state hCompound (by decide)⟩
  · intro out hInt
    rw [scalar_run_eq_ok_iff] at hInt ⊢
    exact hInt.float_of_int

/-- Lenient coercion of a field with the name flag. -/
def flagState : State := { options := { mode := .lenient }, cursor := { path := ["flag"] } }

-- The text stands for a number and for a boolean. The same text in a list is a fault of mixed.
theorem mixed_run_eq_union_run_one :
    ((Json.str "1").isCompound = false ∧ (Json.str "1").isBoolean .lenient = true ∧ ∃ out,
      (scalar .mixed (.str "1")).run flagState = .ok out flagState ∧
      (union [.float, .boolean, .null, .string] (.str "1")).run flagState = .ok out flagState ∧
      (union [.int, .float, .boolean, .null, .string] (.str "1")).run flagState =
        .ok out flagState) ∧
    ((Json.arr [.str "1"]).isCompound = true ∧
      (scalar .mixed (.arr [.str "1"])).run flagState =
        .error (.fault (.notScalar ["flag"])) flagState) ∧
    ((scalar .int (.str "1")).run flagState = .ok (.num (.int 1 (by decide))) flagState ∧
      (scalar .float (.str "1")).run flagState = .ok (.num (.int 1 (by decide))) flagState) := by
  have hInt : (scalar .int (.str "1")).run flagState =
      .ok (.num (.int 1 (by decide))) flagState :=
    (scalar_run_eq_ok_iff _).mpr (Kind.read?_eq_some_iff.mp (by decide +kernel))
  exact ⟨⟨rfl, by decide, (mixed_run_eq_union_run _ _).1 rfl⟩,
    ⟨rfl, ((mixed_run_eq_union_run _ _).2.1 rfl).1⟩,
    hInt, (mixed_run_eq_union_run _ _).2.2 _ hInt⟩

end Engine

end Conform
