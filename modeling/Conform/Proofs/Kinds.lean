import Conform.Proofs.StandIn

/-! # Values read by kinds

The rule of every kind, as a relation between a value and what is read from it. A list of kinds reads
with the first of them that fits. Reading never depends on the path. Where no kind fits, the kind
mixed makes a fault of it, and then no other kind would have fitted either.
-/

set_option autoImplicit false

namespace Conform

/-- Why a coercion stops, apart from where. -/
inductive Reason where
  | rejected
  | notScalar
  | depthExceeded
deriving DecidableEq, Repr

def Reason.failure (path : Path) : Reason → Failure
  | .rejected => .rejected
  | .notScalar => .fault (.notScalar path)
  | .depthExceeded => .fault .depthExceeded

namespace Kind

/-- Mixed takes the first of number, boolean, null and string. -/
inductive Fits (mode : Mode) (value : Json) : Kind → Json → Prop
  | int {n : Number} : value.DenotesNumber mode n → n.IsWhole → Fits mode value .int (.num n)
  | float {n : Number} : value.DenotesNumber mode n → Fits mode value .float (.num n)
  | boolean {b : Bool} : value.DenotesBoolean mode b → Fits mode value .boolean (.bool b)
  | string {text : String} : value = .str text → Fits mode value .string (.str text)
  | null : value.DenotesNull mode → Fits mode value .null .null
  | mixedNumber {n : Number} : value.DenotesNumber mode n → Fits mode value .mixed (.num n)
  | mixedBoolean {b : Bool} : (∀ n, ¬ value.DenotesNumber mode n) → value.DenotesBoolean mode b →
      Fits mode value .mixed (.bool b)
  | mixedNull : (∀ n, ¬ value.DenotesNumber mode n) → (∀ b, ¬ value.DenotesBoolean mode b) →
      value.DenotesNull mode → Fits mode value .mixed .null
  | mixedString {text : String} : (∀ n, ¬ value.DenotesNumber mode n) →
      (∀ b, ¬ value.DenotesBoolean mode b) → ¬ value.DenotesNull mode → value = .str text →
      Fits mode value .mixed (.str text)

/-- The first fitting kind of a list reads the value. -/
inductive FitsFirst (mode : Mode) (value : Json) : List Kind → Json → Prop
  | here {kind : Kind} {rest : List Kind} {out : Json} : kind.Fits mode value out →
      FitsFirst mode value (kind :: rest) out
  | later {kind : Kind} {rest : List Kind} {out : Json} : (∀ other, ¬ kind.Fits mode value other) →
      FitsFirst mode value rest out → FitsFirst mode value (kind :: rest) out

/-- What stops a value that none of the kinds fits. -/
def refusal (kinds : List Kind) : Reason :=
  if .mixed ∈ kinds then .notScalar else .rejected

def read? (mode : Mode) (value : Json) (kind : Kind) : Option Json :=
  (kind.coerce mode [] value).toOption

def readFirst? (mode : Mode) (value : Json) (kinds : List Kind) : Option Json :=
  kinds.findSome? (read? mode value)

section Reading

variable {mode : Mode} {value out : Json} {kind : Kind}

theorem castNumber_eq {n : Number} (path : Path) (h : value.DenotesNumber mode n) :
    value.castNumber path = .ok (.num n) := by
  rw [Json.castNumber, (Json.denotesNumber_iff.mp h).2]

theorem castBoolean_eq {b : Bool} (path : Path) (h : value.DenotesBoolean mode b) :
    value.castBoolean path = .ok (.bool b) := by
  rw [Json.castBoolean, (Json.denotesBoolean_iff.mp h).2]

theorem isNumber_eq_false (h : ∀ n, ¬ value.DenotesNumber mode n) :
    value.isNumber mode = false := by
  rw [← Bool.not_eq_true, Json.isNumber_iff]
  rintro ⟨n, hn⟩
  exact h n hn

theorem isBoolean_eq_false (h : ∀ b, ¬ value.DenotesBoolean mode b) :
    value.isBoolean mode = false := by
  rw [← Bool.not_eq_true, Json.isBoolean_iff]
  rintro ⟨b, hb⟩
  exact h b hb

theorem isNull_eq_false (h : ¬ value.DenotesNull mode) : value.isNull mode = false := by
  rwa [← Bool.not_eq_true, ← Json.denotesNull_iff]

theorem coerce_of_fits (path : Path) (h : kind.Fits mode value out) :
    kind.coerce mode path value = .ok out := by
  cases h with
  | int hn hWhole =>
    rw [coerce, castIf, if_pos (hn.isInt_iff.mpr hWhole), castNumber_eq path hn]
    rfl
  | float hn =>
    rw [coerce, castIf, if_pos (Json.isNumber_iff.mpr ⟨_, hn⟩), castNumber_eq path hn]
    rfl
  | boolean hb =>
    rw [coerce, castIf, if_pos (Json.isBoolean_iff.mpr ⟨_, hb⟩), castBoolean_eq path hb]
    rfl
  | string hText =>
    subst hText
    rfl
  | null hNull =>
    rw [coerce, castIf, if_pos (Json.denotesNull_iff.mp hNull)]
    rfl
  | mixedNumber hn =>
    rw [coerce, Json.castMixed, if_pos (Json.isNumber_iff.mpr ⟨_, hn⟩), castNumber_eq path hn]
    rfl
  | mixedBoolean hn hb =>
    rw [coerce, Json.castMixed, isNumber_eq_false hn, if_pos (Json.isBoolean_iff.mpr ⟨_, hb⟩),
      castBoolean_eq path hb]
    rfl
  | mixedNull hn hb hNull =>
    rw [coerce, Json.castMixed, isNumber_eq_false hn, isBoolean_eq_false hb,
      if_pos (Json.denotesNull_iff.mp hNull)]
    rfl
  | mixedString hn hb hNull hText =>
    rw [coerce, Json.castMixed, isNumber_eq_false hn, isBoolean_eq_false hb, isNull_eq_false hNull]
    subst hText
    rfl

theorem coerce_of_not_fits (path : Path) (h : ∀ other, ¬ kind.Fits mode value other) :
    kind.coerce mode path value = .error ((refusal [kind]).failure path) := by
  cases kind with
  | int =>
    have hTest : value.isInt mode = false := by
      rw [← Bool.not_eq_true, Json.isInt_iff]
      rintro ⟨n, hn, hWhole⟩
      exact h _ (.int hn hWhole)
    rw [coerce, castIf, hTest]
    rfl
  | float =>
    rw [coerce, castIf, isNumber_eq_false fun n hn => h _ (.float hn)]
    rfl
  | boolean =>
    rw [coerce, castIf, isBoolean_eq_false fun b hb => h _ (.boolean hb)]
    rfl
  | string =>
    cases value with
    | str text => exact absurd (.string rfl) (h (.str text))
    | null | bool _ | num _ | arr _ | obj _ => rfl
  | null =>
    rw [coerce, castIf, isNull_eq_false fun hNull => h _ (.null hNull)]
    rfl
  | mixed =>
    have hn : ∀ n, ¬ value.DenotesNumber mode n := fun n hn => h _ (.mixedNumber hn)
    have hb : ∀ b, ¬ value.DenotesBoolean mode b := fun b hb => h _ (.mixedBoolean hn hb)
    have hNull : ¬ value.DenotesNull mode := fun hNull => h _ (.mixedNull hn hb hNull)
    rw [coerce, Json.castMixed, isNumber_eq_false hn, isBoolean_eq_false hb, isNull_eq_false hNull]
    cases value with
    | str text => exact absurd (.mixedString hn hb hNull rfl) (h (.str text))
    | null | bool _ | num _ | arr _ | obj _ => rfl

theorem read?_eq_some_iff : kind.read? mode value = some out ↔ kind.Fits mode value out := by
  by_cases hFits : ∃ other, kind.Fits mode value other
  · obtain ⟨other, hOther⟩ := hFits
    rw [read?, coerce_of_fits [] hOther, Except.toOption, Option.some.injEq]
    constructor
    · intro h
      exact h ▸ hOther
    · intro h
      have := (coerce_of_fits [] hOther).symm.trans (coerce_of_fits [] h)
      exact Except.ok.inj this
  · have hNone : ∀ other, ¬ kind.Fits mode value other := fun other h => hFits ⟨other, h⟩
    rw [read?, coerce_of_not_fits [] hNone]
    exact ⟨nofun, fun h => absurd h (hNone out)⟩

theorem read?_eq_none_iff :
    kind.read? mode value = none ↔ ∀ other, ¬ kind.Fits mode value other := by
  rw [Option.eq_none_iff_forall_ne_some]
  exact forall_congr' fun other => not_congr read?_eq_some_iff

theorem Fits.eq {other : Json} (h : kind.Fits mode value out) (hOther : kind.Fits mode value other) :
    out = other :=
  Option.some.inj ((read?_eq_some_iff.mpr h).symm.trans (read?_eq_some_iff.mpr hOther))

theorem readFirst?_cons (rest : List Kind) :
    readFirst? mode value (kind :: rest) =
      (kind.read? mode value).or (readFirst? mode value rest) := by
  rw [readFirst?, List.findSome?_cons]
  cases kind.read? mode value <;> rfl

theorem readFirst?_eq_some_iff {kinds : List Kind} :
    readFirst? mode value kinds = some out ↔ FitsFirst mode value kinds out := by
  induction kinds with
  | nil => exact ⟨nofun, nofun⟩
  | cons kind rest ih =>
    rw [readFirst?_cons, Option.or_eq_some_iff, ih, read?_eq_some_iff, read?_eq_none_iff]
    constructor
    · rintro (hHere | ⟨hNone, hRest⟩)
      · exact .here hHere
      · exact .later hNone hRest
    · rintro (hHere | ⟨hNone, hRest⟩)
      · exact Or.inl hHere
      · exact Or.inr ⟨hNone, hRest⟩

theorem fitsFirst_singleton_iff : FitsFirst mode value [kind] out ↔ kind.Fits mode value out := by
  constructor
  · rintro (hHere | ⟨_, hRest⟩)
    · exact hHere
    · cases hRest
  · exact .here

theorem FitsFirst.exists_fits {kinds : List Kind} (h : FitsFirst mode value kinds out) :
    ∃ kind ∈ kinds, kind.Fits mode value out := by
  induction h with
  | here hFits => exact ⟨_, List.mem_cons_self, hFits⟩
  | later _ _ ih =>
    obtain ⟨kind, hMem, hFits⟩ := ih
    exact ⟨kind, List.mem_cons_of_mem _ hMem, hFits⟩

theorem not_fits_of_not_fits_mixed (h : ∀ other, ¬ Kind.mixed.Fits mode value other) :
    ¬ kind.Fits mode value out := by
  have hn : ∀ n, ¬ value.DenotesNumber mode n := fun n hn => h _ (.mixedNumber hn)
  have hb : ∀ b, ¬ value.DenotesBoolean mode b := fun b hb => h _ (.mixedBoolean hn hb)
  have hNull : ¬ value.DenotesNull mode := fun hNull => h _ (.mixedNull hn hb hNull)
  intro hFits
  cases hFits with
  | int hNumber _ | float hNumber => exact hn _ hNumber
  | boolean hBoolean => exact hb _ hBoolean
  | string hText => exact h _ (.mixedString hn hb hNull hText)
  | null hNull' => exact hNull hNull'
  | mixedNumber hNumber => exact hn _ hNumber
  | mixedBoolean _ hBoolean => exact hb _ hBoolean
  | mixedNull _ _ hNull' => exact hNull hNull'
  | mixedString _ _ _ hText => exact h _ (.mixedString hn hb hNull hText)

theorem refusal_cons_of_ne {rest : List Kind} (h : kind ≠ .mixed) :
    refusal (kind :: rest) = refusal rest := by
  simp [refusal, h.symm]

theorem coerceFirst_eq (path : Path) (kinds : List Kind) :
    coerceFirst mode path value kinds =
      match readFirst? mode value kinds with
      | some out => .ok out
      | none => .error ((refusal kinds).failure path) := by
  induction kinds with
  | nil => rfl
  | cons kind rest ih =>
    rw [coerceFirst, readFirst?_cons]
    cases hRead : kind.read? mode value with
    | some out => rw [coerce_of_fits path (read?_eq_some_iff.mp hRead), Option.some_or]
    | none =>
      have hNone := read?_eq_none_iff.mp hRead
      rw [coerce_of_not_fits path hNone, Option.none_or]
      by_cases hMixed : kind = .mixed
      · -- The fault ends the search, and the rest could not have read the value either.
        subst hMixed
        have hRest : readFirst? mode value rest = none :=
          List.findSome?_eq_none_iff.mpr fun _ _ =>
            read?_eq_none_iff.mpr fun _ => not_fits_of_not_fits_mixed hNone
        simp [hRest, refusal, Reason.failure]
      · rw [refusal_cons_of_ne hMixed, refusal_cons_of_ne hMixed]
        simp [refusal, Reason.failure, ih]

theorem Fits.isArray_eq_false (h : kind.Fits mode value out) : out.isArray = false := by
  cases h <;> rfl

theorem FitsFirst.isArray_eq_false {kinds : List Kind} (h : FitsFirst mode value kinds out) :
    out.isArray = false := by
  obtain ⟨_, _, hFits⟩ := h.exists_fits
  exact hFits.isArray_eq_false

theorem exists_fitsFirst {kinds : List Kind}
    (h : ∃ kind ∈ kinds, ∃ out, kind.Fits mode value out) :
    ∃ out, FitsFirst mode value kinds out := by
  induction kinds with
  | nil =>
    obtain ⟨_, hMem, _⟩ := h
    cases hMem
  | cons kind rest ih =>
    by_cases hHere : ∃ out, kind.Fits mode value out
    · obtain ⟨out, hOut⟩ := hHere
      exact ⟨out, .here hOut⟩
    · obtain ⟨other, hMem, out, hOut⟩ := h
      rcases List.mem_cons.mp hMem with rfl | hRest
      · exact absurd ⟨out, hOut⟩ hHere
      · obtain ⟨out, hOut⟩ := ih ⟨other, hRest, out, hOut⟩
        exact ⟨out, .later (fun other hOther => hHere ⟨other, hOther⟩) hOut⟩

theorem FitsFirst.eq {kinds : List Kind} {other : Json} (h : FitsFirst mode value kinds out)
    (hOther : FitsFirst mode value kinds other) : out = other :=
  Option.some.inj ((readFirst?_eq_some_iff.mpr h).symm.trans (readFirst?_eq_some_iff.mpr hOther))

/-- Whatever a kind gives is already what the kind asks for. -/
theorem Fits.strict_self (h : kind.Fits mode value out) : kind.Fits .strict out out := by
  cases h with
  | int _ hWhole => exact .int (.number _) hWhole
  | float _ => exact .float (.number _)
  | boolean _ => exact .boolean (.boolean _)
  | string _ => exact .string rfl
  | null _ => exact .null .null
  | mixedNumber _ => exact .mixedNumber (.number _)
  | mixedBoolean _ _ => exact .mixedBoolean (by simp) (.boolean _)
  | mixedNull _ _ _ => exact .mixedNull (by simp) (by simp) .null
  | mixedString _ _ _ _ => exact .mixedString (by simp) (by simp) (by simp) rfl

theorem Fits.eq_of_strict (h : kind.Fits .strict value out) : value = out := by
  cases h with
  | int hNumber _ | float hNumber | mixedNumber hNumber =>
    exact Json.denotesNumber_strict_iff.mp hNumber
  | boolean hBoolean | mixedBoolean _ hBoolean => exact Json.denotesBoolean_strict_iff.mp hBoolean
  | string hText | mixedString _ _ _ hText => exact hText
  | null hNull | mixedNull _ _ hNull => exact Json.denotesNull_strict_iff.mp hNull

theorem FitsFirst.eq_of_strict {kinds : List Kind} (h : FitsFirst .strict value kinds out) :
    value = out := by
  obtain ⟨_, _, hFits⟩ := h.exists_fits
  exact hFits.eq_of_strict

theorem Fits.eq_of_text {text : String} (h : kind.Fits mode value (.str text)) :
    value = .str text := by
  cases h with
  | string hText | mixedString _ _ _ hText => exact hText

theorem exists_fits_mixed (h : kind.Fits mode value out) :
    ∃ other, Kind.mixed.Fits mode value other := by
  apply Classical.byContradiction
  intro hNone
  exact not_fits_of_not_fits_mixed (fun other hOther => hNone ⟨other, hOther⟩) h

/-- A native value is readable in lenient mode, though mixed may then read a boolean as a number. -/
theorem Fits.exists_lenient (h : kind.Fits .strict value out) :
    ∃ other, kind.Fits .lenient value other := by
  obtain rfl := h.eq_of_strict
  cases h with
  | int _ hWhole => exact ⟨_, .int (.number _) hWhole⟩
  | float _ => exact ⟨_, .float (.number _)⟩
  | boolean _ => exact ⟨_, .boolean (.boolean _)⟩
  | string _ => exact ⟨_, .string rfl⟩
  | null _ => exact ⟨_, .null .null⟩
  | mixedNumber _ => exact ⟨_, .mixedNumber (.number _)⟩
  | mixedBoolean _ _ => exact ⟨_, .mixedNumber (.boolean _ rfl)⟩
  | mixedNull _ _ _ => exact exists_fits_mixed (.null .null)
  | mixedString _ _ _ _ => exact exists_fits_mixed (.string rfl)

end Reading

/-- Why no kind of a list reads a value. -/
def unread? (mode : Mode) (kinds : List Kind) (value : Json) : Option Reason :=
  if (readFirst? mode value kinds).isSome then none else some (refusal kinds)

end Kind

end Conform
