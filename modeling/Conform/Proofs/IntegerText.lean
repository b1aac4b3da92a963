import Conform.Proofs.NumeralValue
import Conform.Proofs.Outputs

/-! # Integers from text

The kind int reads a text as the double nearest to what the text denotes. Below the safe limit nothing
is lost on the way: a text that writes an integer is read as this integer. Beyond the limit a double
stays a double, so a text that denotes an integer never comes out as another one, though a double that
is whole may stand for a fraction or for a neighbour that no double is.
-/

set_option autoImplicit false

namespace Conform

namespace Numeral

/-- An integer in digits alone, decimal ones behind at most a sign, or those of a marked base. -/
inductive WritesInteger : List Char → ℤ → Prop
  | decimal {sign text : List Char} {negative : Bool} {digits : List ℕ} :
      Decimal.Sign sign negative → text ≠ [] → Text.Digits 10 text digits →
      WritesInteger (sign ++ text) (Decimal.signed negative (Text.positional 10 digits))
  | radix {text : List Char} {n : ℕ} : Radix.Written text n → WritesInteger text n

section Integers

variable {core text : List Char} {n : ℤ}

theorem value_of_exponent_eq_zero {x : Decimal} (h : x.exponent = 0) :
    x.value = (Decimal.signed x.negative x.significand : ℚ) := by
  rw [Decimal.value, Decimal.signed, h, zpow_zero, mul_one, sign_mul_natCast]

theorem WritesInteger.denotes (h : WritesInteger core n) : Denotes core n := by
  cases h with
  | decimal hSign hNonempty hDigits =>
    have hWritten := Decimal.Written.intro hSign hDigits .absent
      (fun hNone => hDigits.ne_nil hNonempty hNone.1) .absent
    rw [List.append_nil, List.append_nil, List.append_nil] at hWritten
    have hDenotes := Denotes.decimal hWritten
    rwa [value_of_exponent_eq_zero (by simp)] at hDenotes
  | radix hWritten => exact_mod_cast Denotes.radix hWritten

theorem not_blank_of_digits {base : ℕ} {digits : List ℕ} (h : Text.Digits base text digits) :
    ∀ c ∈ text, Text.isBlank c = false := by
  induction h with
  | nil => exact List.forall_mem_nil _
  | cons hDigit _ ih => exact List.forall_mem_cons.mpr ⟨Text.isBlank_of_digit hDigit, ih⟩

theorem WritesInteger.not_blank (h : WritesInteger core n) : ∀ c ∈ core, Text.isBlank c = false := by
  cases h with
  | decimal hSign _ hDigits =>
    refine List.forall_mem_append.mpr ⟨?_, not_blank_of_digits hDigits⟩
    cases hSign with
    | absent => exact List.forall_mem_nil _
    | plus | minus => exact List.forall_mem_singleton.mpr (by decide)
  | radix hWritten =>
    obtain ⟨hMark, _, hDigits⟩ := hWritten
    have hMarks : ∀ entry ∈ Radix.marks, Text.isBlank entry.1 = false := by decide
    exact List.forall_mem_cons.mpr ⟨by decide,
      List.forall_mem_cons.mpr ⟨hMarks _ hMark, not_blank_of_digits hDigits⟩⟩

/-- Integers of 64 bits are in the range of the doubles, in whatever way they are written. -/
theorem exists_read?_of_denotes (h : Denotes (Text.trim text) n) (hWord : n.natAbs < wordLimit) :
    ∃ x, read? text = some x := by
  generalize hv : (n : ℚ) = v at h
  cases h with
  | @radix m hWritten =>
    have hEq : n = m := by exact_mod_cast hv
    have hBound : m < wordLimit := by omega
    refine ⟨.ofInt m hBound, ?_⟩
    rw [read?, radix?, Radix.read?_eq_some_iff.mpr hWritten, Option.bind_some, Radix.toBinary64?,
      dif_pos hBound]
    rfl
  | @decimal x hWritten =>
    have hRead := Decimal.read?_eq_some_iff.mpr hWritten
    have hRadix : radix? (Text.trim text) = none := by
      rw [radix?, Option.bind_eq_none_iff]
      intro m hm
      rw [(Radix.read?_eq_some_iff.mp hm).not_decimal] at hRead
      cases hRead
    have hCode := (Binary64.isNearest_ofInt n hWord).code
    rw [hv] at hCode
    refine ⟨⟨x.negative, (Binary64.ofInt n hWord).code, Binary64.code_lt _⟩, ?_⟩
    rw [read?, hRadix, decimal?, hRead]
    exact Decimal.toBinary64?_eq_some_iff.mpr ⟨rfl, hCode⟩

theorem trim_of_writesInteger (h : WritesInteger core n) (hText : Text.Padded core text) :
    Text.trim text = core := by
  rw [Text.trim_of_padded hText, Text.trim_of_not_blank h.not_blank]

theorem isNearest_of_denotes {x : Binary64} {v : ℚ} (hRead : read? text = some x)
    (hDenotes : Denotes (Text.trim text) v) : x.IsNearest v := by
  obtain ⟨w, hw, hNearest⟩ := isNearest_of_read? hRead
  exact hw.unique hDenotes ▸ hNearest

end Integers

end Numeral

namespace Number

/-- The number is the value rounded to a double, which may be held as an integer. Rounding is not seen
where a double has the value, in particular at the safe integers. An integer may come out as a double of
another value, but not as another integer. -/
structure IsRounded (n : Number) (v : ℚ) : Prop where
  nearest : ∃ x : Binary64, x.IsNearest v ∧ n.value = x.value
  closest : ∀ y : Binary64, |n.value - v| ≤ |y.value - v|
  eq_iff : n.value = v ↔ ∃ y : Binary64, y.value = v
  safe : ∀ k : ℤ, v = k → k.natAbs < safeLimit → ∃ inRange, n = .int k inRange
  not_other : ∀ (k m : ℤ) (inRange : IntRange m), v = k → n = .int m inRange → m = k

variable {n : Number} {x : Binary64} {v : ℚ}

theorem isRounded_ofBinary64 (h : x.IsNearest v) : (ofBinary64 x).IsRounded v where
  nearest := ⟨x, h, value_ofBinary64 x⟩
  closest := by
    rw [value_ofBinary64]
    exact h.abs_sub_le
  eq_iff := by
    rw [value_ofBinary64]
    exact h.value_eq_iff
  safe := by
    rintro k rfl hSafe
    exact ⟨_, (ofBinary64_of_isNearest h hSafe).2⟩
  not_other := by
    rintro k m inRange rfl hInt
    rcases Nat.lt_or_ge k.natAbs safeLimit with hSafe | hLarge
    · rw [(ofBinary64_of_isNearest h hSafe).2] at hInt
      cases hInt
      rfl
    · rw [ofBinary64_of_isNearest_large h hLarge] at hInt
      cases hInt

theorem IsWhole.exists_value_eq (h : n.IsWhole) : ∃ k : ℤ, n.value = k := by
  cases n with
  | int k inRange => exact ⟨k, rfl⟩
  | float x => exact ⟨x.truncate, (value_truncate h).symm⟩

end Number

namespace Kind

section Texts

variable {kind : Kind} {text : String} {out : Json} {n : Number}

theorem fits_of_coerce {mode : Mode} {path : Path} {value : Json}
    (h : kind.coerce mode path value = .ok out) : kind.Fits mode value out := by
  by_cases hFits : ∃ other, kind.Fits mode value other
  · obtain ⟨other, hOther⟩ := hFits
    rw [coerce_of_fits path hOther, Except.ok.injEq] at h
    exact h ▸ hOther
  · rw [coerce_of_not_fits path fun other h => hFits ⟨other, h⟩] at h
    cases h

theorem denotesNumber_text_iff : Json.DenotesNumber .lenient (.str text) n ↔
    ∃ x, Numeral.read? text.toList = some x ∧ n = .ofBinary64 x := by
  constructor
  · rintro (_ | _ | ⟨_, hRead⟩)
    exact ⟨_, hRead, rfl⟩
  · rintro ⟨x, hRead, rfl⟩
    exact .numeral rfl hRead

theorem exists_number_of_fits {mode : Mode} {value : Json} (hKind : kind ∈ [Kind.int, .float])
    (h : kind.Fits mode value out) : ∃ n, out = .num n ∧ value.DenotesNumber mode n := by
  cases h with
  | int hn _ | float hn => exact ⟨_, rfl, hn⟩
  | boolean _ | string _ | null _ | mixedNumber _ | mixedBoolean _ _ | mixedNull _ _ _
  | mixedString _ _ _ _ => simp at hKind

theorem fits_whole_number {mode : Mode} {value : Json} (hKind : kind ∈ [Kind.int, .float, .mixed])
    (h : value.DenotesNumber mode n) (hWhole : n.IsWhole) : kind.Fits mode value (.num n) := by
  simp only [List.mem_cons, List.not_mem_nil, or_false] at hKind
  rcases hKind with rfl | rfl | rfl
  · exact .int h hWhole
  · exact .float h
  · exact .mixedNumber h

/-- Kinds that do not fit do not keep a later one from reading the value. -/
theorem fitsFirst_append {mode : Mode} {value : Json} {front back : List Kind}
    (hFront : ∀ other ∈ front, ∀ out, ¬ other.Fits mode value out) (h : kind.Fits mode value out) :
    FitsFirst mode value (front ++ kind :: back) out := by
  induction front with
  | nil => exact .here h
  | cons other rest ih =>
    obtain ⟨hOther, hRest⟩ := List.forall_mem_cons.mp hFront
    exact .later hOther (ih hRest)

/-- A number that int reads from a text. -/
theorem exists_isRounded_of_fits_int
    (h : Kind.int.Fits .lenient (.str text) out) :
    ∃ v n, out = .num n ∧ (∀ w, Numeral.Denotes (Text.trim text.toList) w ↔ w = v) ∧
      n.IsRounded v ∧ ∃ k : ℤ, n.value = k := by
  cases h with
  | int hn hWhole =>
    obtain ⟨x, hRead, rfl⟩ := denotesNumber_text_iff.mp hn
    obtain ⟨v, hv, hNearest⟩ := Numeral.isNearest_of_read? hRead
    refine ⟨v, _, rfl, fun w => ⟨fun hw => hw.unique hv, ?_⟩,
      Number.isRounded_ofBinary64 hNearest, hWhole.exists_value_eq⟩
    rintro rfl
    exact hv

end Texts

/-- A text that writes a safe integer, in whatever base and between whatever blanks, is read as the
integer itself. Beyond the safe limit no such text is read as an integer. -/
theorem lenient_integer_exact {text : String} {core : List Char} {n : ℤ} (path : Path)
    (hText : Text.Padded core text.toList) (hCore : Numeral.WritesInteger core n) :
    (n.natAbs < Number.safeLimit → ∃ inRange, ∀ kind ∈ [Kind.int, .float, .mixed],
      kind.coerce .lenient path (.str text) = .ok (.num (.int n inRange)) ∧
        kind.coerce .lenient path (.num (.int n inRange)) = .ok (.num (.int n inRange))) ∧
    (Number.safeLimit ≤ n.natAbs → ∀ kind ∈ [Kind.int, .float], ∀ out,
      kind.coerce .lenient path (.str text) = .ok out → ∃ x, out = .num (.float x)) := by
  have hDenotes : Numeral.Denotes (Text.trim text.toList) n := by
    rw [Numeral.trim_of_writesInteger hCore hText]
    exact hCore.denotes
  constructor
  · intro hSafe
    have hRange := Number.intRange_of_natAbs_lt hSafe
    obtain ⟨x, hRead⟩ := Numeral.exists_read?_of_denotes hDenotes hRange.natAbs_lt
    obtain ⟨_, hInt⟩ :=
      Number.ofBinary64_of_isNearest (Numeral.isNearest_of_denotes hRead hDenotes) hSafe
    have hNumber : Json.DenotesNumber .lenient (.str text) (.int n hRange) :=
      denotesNumber_text_iff.mpr ⟨x, hRead, hInt.symm⟩
    refine ⟨hRange, fun kind hKind => ⟨?_, ?_⟩⟩
    · exact coerce_of_fits path (fits_whole_number hKind hNumber trivial)
    · exact coerce_of_fits path (fits_whole_number hKind (.number _) trivial)
  · intro hLarge kind hKind out hOut
    obtain ⟨m, rfl, hm⟩ := exists_number_of_fits hKind (fits_of_coerce hOut)
    obtain ⟨x, hRead, rfl⟩ := denotesNumber_text_iff.mp hm
    have hNearest := Numeral.isNearest_of_denotes hRead hDenotes
    exact ⟨x, by rw [Number.ofBinary64_of_isNearest_large hNearest hLarge]⟩

-- The blanks are no ASCII characters. Two to the power 53 and one lies halfway between two doubles.
theorem lenient_integer_exact_limit :
    (∃ inRange, ∀ kind ∈ [Kind.int, .float, .mixed],
      kind.coerce .lenient ["id"] (.str "\u3000-0009007199254740991\u0085") =
          .ok (.num (.int (-9007199254740991) inRange)) ∧
        kind.coerce .lenient ["id"] (.num (.int (-9007199254740991) inRange)) =
          .ok (.num (.int (-9007199254740991) inRange))) ∧
    (∀ kind ∈ [Kind.int, .float], ∀ out,
      kind.coerce .lenient ["id"] (.str "0X20000000000001") = .ok out →
        ∃ x, out = .num (.float x)) := by
  have hDigits : Text.Digits 10 "0009007199254740991".toList
      [0, 0, 0, 9, 0, 0, 7, 1, 9, 9, 2, 5, 4, 7, 4, 0, 9, 9, 1] :=
    Text.mapM_digitValue?_eq_some_iff.mp rfl
  have hSafe : Numeral.WritesInteger "-0009007199254740991".toList (-9007199254740991) :=
    .decimal .minus (by decide) hDigits
  have hLarge : Numeral.WritesInteger "0X20000000000001".toList 9007199254740993 :=
    .radix (Numeral.Radix.read?_eq_some_iff.mp (by decide +kernel))
  have hPadded : Text.Padded "-0009007199254740991".toList
      "\u3000-0009007199254740991\u0085".toList :=
    ⟨['\u3000'], ['\u0085'], rfl, List.forall_mem_singleton.mpr (by decide),
      List.forall_mem_singleton.mpr (by decide)⟩
  have hBare : Text.Padded "0X20000000000001".toList "0X20000000000001".toList :=
    ⟨[], [], rfl, List.forall_mem_nil _, List.forall_mem_nil _⟩
  exact ⟨(lenient_integer_exact ["id"] hPadded hSafe).1 (by decide),
    (lenient_integer_exact ["id"] hBare hLarge).2 (by decide)⟩

end Kind

namespace Place

/-- The kind int reads the text at this place: on its own, as an element or as a member of a union whose
earlier members do not fit. -/
inductive ReadsInt : Place → String → Prop
  | scalar {level : Nat} {tag : Tag} {text : String} : tag.array = false → tag.kind = .int →
      ReadsInt (.field level (.scalar tag) (.str text)) text
  | element {text : String} : ReadsInt (.element .int (.str text)) text
  | member {level : Nat} {front back : List Kind} {text : String} {out : Json} :
      (∀ kind ∈ front, ∀ other, ¬ kind.Fits .lenient (.str text) other) →
      Kind.int.Fits .lenient (.str text) out →
      ReadsInt (.field level (.union (front ++ .int :: back)) (.str text)) text

theorem Gives.fits_int {place : Place} {text : String} {out : Json} (h : place.Gives .lenient out)
    (hInt : place.ReadsInt text) : Kind.int.Fits .lenient (.str text) out := by
  cases hInt with
  | scalar hSingle hKind =>
    cases h with
    | field hFits =>
      cases hFits with
      | scalar _ hKindFits => exact hKind ▸ hKindFits
      | text hArray _ _ _ _ => exact absurd hArray (by simp [hSingle])
  | element =>
    cases h with
    | element hFits => exact hFits
  | member hFront hHere =>
    cases h with
    | field hFits =>
      cases hFits with
      | union _ hFirst => exact hFirst.eq (Kind.fitsFirst_append hFront hHere) ▸ hHere

theorem ReadsInt.value?_isSome {place : Place} {text : String} (h : place.ReadsInt text) :
    place.value?.isSome := by
  cases h <;> rfl

end Place

namespace Schema

/-- Where int has read a text, the record holds the value of the text, rounded to a double. -/
theorem lenient_int_rounds {schema : Schema} {input : Json} {maxDepth : Nat} {record : Record}
    {path : Path} {place : Place} {text : String}
    (hAccepted : schema.coerce input { mode := .lenient, maxDepth } = .accepted record)
    (hPlace : (schema.root input).at? .lenient path = some place) (hInt : place.ReadsInt text) :
    ∃ v n, (Json.obj record).at? path = some (.num n) ∧
      (∀ w, Numeral.Denotes (Text.trim text.toList) w ↔ w = v) ∧ n.IsRounded v ∧
        ∃ k : ℤ, n.value = k := by
  obtain ⟨leaf, hLeaf, hGives⟩ := gives_at? hAccepted hPlace hInt.value?_isSome
  obtain ⟨v, n, rfl, hDenotes, hRounded, hWhole⟩ :=
    Kind.exists_isRounded_of_fits_int (hGives.fits_int hInt)
  exact ⟨v, n, hLeaf, hDenotes, hRounded, hWhole⟩

def idsSchema : Schema :=
  .ofFields [("ids", .scalar { kind := .int, array := true }), ("key", .union [.null, .int])]

def idsRecord : Record :=
  [("ids", .arr [.num (.int 31 (by decide)), .num (.int 1250 (by decide))]),
    ("key", .num (.float { negative := false, code := 0x4340000000000000 }))]

-- The second piece of a text, and a member after one that does not fit.
theorem lenient_int_rounds_piece :
    idsSchema.coerce (.obj [("ids", .str "0x1F, 12.50e2"), ("key", .str "9007199254740993")])
        { mode := .lenient } = .accepted idsRecord ∧
    (∃ v n, (Json.obj idsRecord).at? ["ids", "1"] = some (.num n) ∧
      (∀ w, Numeral.Denotes (Text.trim " 12.50e2".toList) w ↔ w = v) ∧ n.IsRounded v ∧
        ∃ k : ℤ, n.value = k) ∧
    ∃ v n, (Json.obj idsRecord).at? ["key"] = some (.num n) ∧
      (∀ w, Numeral.Denotes (Text.trim "9007199254740993".toList) w ↔ w = v) ∧ n.IsRounded v ∧
        ∃ k : ℤ, n.value = k := by
  have hAccepted : idsSchema.coerce
      (.obj [("ids", .str "0x1F, 12.50e2"), ("key", .str "9007199254740993")])
      { mode := .lenient } = .accepted idsRecord := by decide +kernel
  have hNull : ∀ kind ∈ [Kind.null], ∀ other, ¬ kind.Fits .lenient (.str "9007199254740993") other := by
    simp only [List.mem_singleton, forall_eq]
    exact Kind.read?_eq_none_iff.mp (by decide +kernel)
  have hInt : Kind.int.Fits .lenient (.str "9007199254740993")
      (.num (.float { negative := false, code := 0x4340000000000000 })) :=
    Kind.read?_eq_some_iff.mp (by decide +kernel)
  exact ⟨hAccepted, lenient_int_rounds hAccepted rfl .element,
    lenient_int_rounds hAccepted rfl (.member hNull hInt)⟩

/-- Rounding takes the fraction from the first text, and one of the units from the second. -/
theorem lenient_int_alters_text :
    idsSchema.coerce (.obj [("ids", .str "1.00000000000000000001"), ("key", .str "9007199254740993")])
        { mode := .lenient } =
      .accepted [("ids", .arr [.num (.int 1 (by decide))]),
        ("key", .num (.float { negative := false, code := 0x4340000000000000 }))] ∧
    Numeral.Denotes (Text.trim "1.00000000000000000001".toList) (1 + 1 / 10 ^ 20) ∧
    (Number.int 1 (by decide)).value ≠ 1 + 1 / 10 ^ 20 ∧ (∀ k : ℤ, (1 + 1 / 10 ^ 20 : ℚ) ≠ k) ∧
    Numeral.Denotes (Text.trim "9007199254740993".toList) 9007199254740993 ∧
    (Number.float { negative := false, code := 0x4340000000000000 }).value ≠ 9007199254740993 := by
  have hFraction : Numeral.Decimal.Written (Text.trim "1.00000000000000000001".toList)
      { negative := false, significand := 100000000000000000001, exponent := -20 } :=
    Numeral.Decimal.read?_eq_some_iff.mp (by decide +kernel)
  have hInteger : Numeral.Decimal.Written (Text.trim "9007199254740993".toList)
      { negative := false, significand := 9007199254740993, exponent := 0 } :=
    Numeral.Decimal.read?_eq_some_iff.mp (by decide +kernel)
  have hUnits : Binary64.unitsOfCode 0x4340000000000000 =
      9007199254740992 * Binary64.unitsPerOne := by decide +kernel
  refine ⟨by decide +kernel, ?_, ?_, ?_, ?_, ?_⟩
  · convert Numeral.Denotes.decimal hFraction using 1
    norm_num [Numeral.Decimal.value]
  · norm_num [Number.value]
  · intro k hk
    have hBelow : (1 : ℚ) < k := by rw [← hk]; norm_num
    have hAbove : (k : ℚ) < 2 := by rw [← hk]; norm_num
    norm_cast at hBelow hAbove
    omega
  · convert Numeral.Denotes.decimal hInteger using 1
    norm_num [Numeral.Decimal.value]
  · rw [Number.value, Binary64.value, Binary64.units, hUnits, Nat.cast_mul,
      mul_div_cancel_right₀ _ Binary64.unitsPerOne_pos.ne']
    norm_num

end Schema

end Conform
