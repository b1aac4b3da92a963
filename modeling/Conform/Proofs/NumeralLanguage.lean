import Conform.Proofs.DoubleBits
import Conform.Proofs.RadixText
import Mathlib.Data.List.DropRight

/-! # The texts that are read as numbers

A text loses the blanks at its ends and nothing else. What is left is a radix numeral or a decimal numeral
or none of the two, so either reader may come first. A decimal numeral has a double up to a limit halfway
beyond the greatest one. The words for infinity and NaN hold no digit, as every numeral does.
-/

set_option autoImplicit false

namespace Conform

namespace Text

/-- The core is what is left of a text without the blanks at its ends. -/
structure Trimmed (core text : List Char) : Prop where
  padded : Padded core text
  head : ∀ c ∈ core.head?, isBlank c = false
  last : ∀ c ∈ core.getLast?, isBlank c = false

section Trimmed

variable {core text : List Char}

theorem trimEnd_eq (text : List Char) : trimEnd text = text.rdropWhile isBlank := rfl

theorem trimmed_trim (text : List Char) : Trimmed (trim text) text := by
  constructor
  · refine ⟨text.takeWhile isBlank, (trimStart text).rtakeWhile isBlank, ?_, ?_, ?_⟩
    · rw [trim, trimEnd_eq, List.rdropWhile_append_rtakeWhile, trimStart,
        List.takeWhile_append_dropWhile]
    · exact fun c hc => List.mem_takeWhile_imp hc
    · exact fun c hc => List.mem_rtakeWhile_imp hc
  · intro c hc
    have hFirst : c ∈ (trimStart text).head? := by
      obtain ⟨back, hBack⟩ := List.rdropWhile_prefix isBlank (trimStart text)
      rw [trim, trimEnd_eq] at hc
      rw [← hBack]
      exact List.mem_head?_append_of_mem_head? hc
    have hDropped := List.head?_dropWhile_not isBlank text
    rwa [← trimStart, Option.mem_def.mp hFirst] at hDropped
  · intro c hc
    obtain ⟨hNonempty, rfl⟩ := List.mem_getLast?_eq_getLast hc
    rw [Bool.eq_false_iff]
    exact List.rdropWhile_last_not isBlank (trimStart text) hNonempty

theorem trim_eq_iff_trimmed : trim text = core ↔ Trimmed core text := by
  constructor
  · rintro rfl
    exact trimmed_trim text
  · rintro ⟨hPadded, hHead, hLast⟩
    have hStart : trimStart core = core := by
      cases core with
      | nil => rfl
      | cons c rest => exact List.dropWhile_cons_of_neg (by simp [hHead c rfl])
    have hEnd : trimEnd core = core := by
      rw [trimEnd_eq, List.rdropWhile_eq_self_iff]
      intro hNonempty
      simp [hLast _ (List.getLast_mem_getLast? hNonempty)]
    rw [trim_of_padded hPadded, trim, hStart, hEnd]

end Trimmed

end Text

namespace Numeral

namespace Decimal

section Values

variable {x : Decimal} {y : Binary64}

theorem toBinary64?_eq_some_iff_isNearest :
    x.toBinary64? = some y ↔ y.negative = x.negative ∧ y.IsNearest x.value := by
  constructor
  · intro h
    exact ⟨(toBinary64?_eq_some_iff.mp h).1, isNearest_of_toBinary64? h⟩
  · rintro ⟨hSign, hNearest⟩
    exact toBinary64?_eq_some_iff.mpr ⟨hSign, hNearest.code⟩

/-- From halfway between the greatest double and two to the power 1024 on, a value has no double. -/
theorem exists_toBinary64?_iff : (∃ y, x.toBinary64? = some y) ↔ |x.value| < 2 ^ 1024 - 2 ^ 970 := by
  obtain ⟨code, hCode⟩ := Binary64.exists_isNearestCode
    (mul_nonneg (abs_nonneg x.value) Binary64.unitsPerOne_pos.le)
  rw [← mul_lt_mul_iff_left₀ Binary64.unitsPerOne_pos, ← Binary64.lt_infinityCode_iff hCode]
  constructor
  · rintro ⟨y, hy⟩
    rw [hCode.unique (toBinary64?_eq_some_iff.mp hy).2]
    exact y.code_lt
  · intro hFinite
    exact ⟨⟨x.negative, code, hFinite⟩, toBinary64?_eq_some_iff.mpr ⟨rfl, hCode⟩⟩

end Values

def words : List (List Char) := ["inf".toList, "infinity".toList, "nan".toList]

/-- One of the words for infinity and for NaN, its letters in either case, with or without a sign. -/
inductive Word : List Char → Prop
  | intro {sign word : List Char} {negative : Bool} : Sign sign negative →
      word.map Char.toLower ∈ words → Word (sign ++ word)

section Digits

variable {text : List Char} {x : Decimal}

theorem Written.exists_digit (h : Written text x) :
    ∃ c ∈ text, ∃ digit, Text.digitValue? 10 c = some digit := by
  obtain ⟨-, hFront, hFraction, hSome, -⟩ := h
  cases hFront with
  | cons hDigit _ => exact ⟨_, by simp, _, hDigit⟩
  | nil =>
    cases hFraction with
    | absent => exact absurd ⟨rfl, rfl⟩ hSome
    | point hDigits =>
      cases hDigits with
      | nil => exact absurd ⟨rfl, rfl⟩ hSome
      | cons hDigit _ => exact ⟨_, by simp, _, hDigit⟩

theorem Word.not_digit (h : Word text) : ∀ c ∈ text, Text.digitValue? 10 c = none := by
  obtain ⟨hSign, hWord⟩ := h
  intro c hc
  rcases List.mem_append.mp hc with hMem | hMem
  · cases hSign with
    | absent => cases hMem
    | plus | minus =>
      obtain rfl := List.mem_singleton.mp hMem
      decide
  · have hTable : ∀ entry ∈ Text.hexDigits, entry.2 < 10 →
        ∀ word ∈ words, entry.1.toLower ∉ word := by decide
    rw [Option.eq_none_iff_forall_ne_some]
    intro digit hDigit
    obtain ⟨hEntry, hLt⟩ := (Text.digitValue?_eq_some_iff (by decide)).mp hDigit
    exact hTable _ hEntry hLt _ hWord (List.mem_map_of_mem hMem)

end Digits

end Decimal

theorem Radix.Literal.exists_digit {text : List Char} {n : ℕ} (h : Radix.Literal text n) :
    ∃ c ∈ text, ∃ digit, Text.digitValue? 10 c = some digit := by
  cases h
  exact ⟨'0', List.mem_cons_self, 0, rfl⟩

section Reading

variable {text : List Char} {n : ℕ} {d : Decimal} {x : Binary64}

theorem decimal?_eq_some_iff : decimal? text = some x ↔
    ∃ d, Decimal.Written text d ∧ x.negative = d.negative ∧ x.IsNearest d.value := by
  simp only [decimal?, Option.bind_eq_some_iff, Decimal.read?_eq_some_iff,
    Decimal.toBinary64?_eq_some_iff_isNearest]

theorem Radix.Literal.not_written (h : Radix.Literal text n) : ¬ Decimal.Written text d := by
  rw [← Decimal.read?_eq_some_iff, (Radix.written_iff_literal.mpr h).not_decimal]
  nofun

theorem radix?_of_written (h : Decimal.Written text d) : radix? text = none := by
  rw [Option.eq_none_iff_forall_ne_some]
  intro x hx
  obtain ⟨n, hLiteral, -⟩ := radix?_eq_some_iff.mp hx
  exact hLiteral.not_written h

/-- At most one of the two readers takes a text. -/
theorem eq_none_or_eq_none (text : List Char) : radix? text = none ∨ decimal? text = none := by
  cases hDecimal : decimal? text with
  | none => exact Or.inr rfl
  | some x =>
    obtain ⟨d, hWritten, -⟩ := decimal?_eq_some_iff.mp hDecimal
    exact Or.inl (radix?_of_written hWritten)

theorem orElse_comm (text : List Char) :
    (radix? text <|> decimal? text) = (decimal? text <|> radix? text) := by
  rcases eq_none_or_eq_none text with h | h
  · rw [h]
    simp
  · rw [h]
    simp

theorem read?_eq_some_iff : read? text = some x ↔
    radix? (Text.trim text) = some x ∨ decimal? (Text.trim text) = some x := by
  rw [read?]
  rcases eq_none_or_eq_none (Text.trim text) with h | h
  · rw [h]
    simp
  · rw [h]
    simp

theorem read?_of_word (h : Decimal.Word (Text.trim text)) : read? text = none := by
  rw [Option.eq_none_iff_forall_ne_some]
  intro x hx
  have hDigit : ∃ c ∈ Text.trim text, ∃ digit, Text.digitValue? 10 c = some digit := by
    rcases read?_eq_some_iff.mp hx with hRadix | hDecimal
    · obtain ⟨n, hLiteral, -⟩ := radix?_eq_some_iff.mp hRadix
      exact hLiteral.exists_digit
    · obtain ⟨d, hWritten, -⟩ := decimal?_eq_some_iff.mp hDecimal
      exact hWritten.exists_digit
  obtain ⟨c, hc, digit, hDigit⟩ := hDigit
  rw [h.not_digit c hc] at hDigit
  cases hDigit

theorem read?_of_padded {padded : List Char} (h : Text.Padded text padded) :
    read? padded = read? text := by
  rw [read?, read?, Text.trim_of_padded h]

end Reading

/-- The texts that are read as numbers are, between their blanks, the radix numerals and the decimal
numerals of a finite rounded value, the words for infinity and NaN not among them. No text is both, and
what is read is a finite double. -/
theorem read_eq_some_iff_numeral (text : List Char) :
    (∀ x, read? text = some x ↔ ∃ core, Text.Trimmed core text ∧ (radix? core = some x ∨
      ∃ d, Decimal.Written core d ∧ x.negative = d.negative ∧ x.IsNearest d.value)) ∧
    (∀ core d, Text.Trimmed core text → Decimal.Written core d →
      ((∃ x, read? text = some x) ↔ |d.value| < 2 ^ 1024 - 2 ^ 970)) ∧
    (∀ core, Text.Trimmed core text → Decimal.Word core → read? text = none) ∧
    (∀ x, read? text = some x → Binary64.exactValue? (Float.ofBits x.toBits) = some x.value) ∧
    (∀ n d, Radix.Literal text n → ¬ Decimal.Written text d) ∧
    (radix? text <|> decimal? text) = (decimal? text <|> radix? text) ∧
    ∀ padded, Text.Padded text padded → read? padded = read? text := by
  simp only [← Text.trim_eq_iff_trimmed]
  refine ⟨?_, ?_, ?_, ?_, ?_, orElse_comm text, fun padded => read?_of_padded⟩
  · intro x
    rw [read?_eq_some_iff, decimal?_eq_some_iff]
    simp
  · rintro core d rfl hWritten
    simp only [← Decimal.exists_toBinary64?_iff, read?_eq_some_iff, radix?_of_written hWritten,
      decimal?, Decimal.read?_eq_some_iff.mpr hWritten, Option.bind_some, reduceCtorEq, false_or]
  · rintro core rfl hWord
    exact read?_of_word hWord
  · intro x _
    exact Binary64.exactValue?_of_ofBits? x.ofBits?_toBits
  · exact fun n d hLiteral => hLiteral.not_written

-- The first text is too large for a double, which is not the same as naming infinity.
theorem read_eq_some_iff_numeral_infinity :
    (Text.Trimmed "1e309".toList "\u30001e309\n".toList ∧
      Decimal.Written "1e309".toList { negative := false, significand := 1, exponent := 309 } ∧
      ¬ ∃ x, read? "\u30001e309\n".toList = some x) ∧
    (Text.Trimmed "-Infinity".toList " -Infinity".toList ∧ Decimal.Word "-Infinity".toList ∧
      read? " -Infinity".toList = none) ∧
    (read? "-.5e1".toList = some { negative := true, code := 0x4014000000000000 } ∧
      Binary64.exactValue?
          (Float.ofBits (Binary64.toBits { negative := true, code := 0x4014000000000000 })) =
        some (Binary64.value { negative := true, code := 0x4014000000000000 })) ∧
    (Radix.Literal "0x1F".toList 31 ∧ ¬ Decimal.Written "0x1F".toList ⟨false, 31, 0⟩) ∧
    (Text.Padded "0b1".toList "\u20030b1".toList ∧
      read? "\u20030b1".toList = read? "0b1".toList) := by
  have hLarge : Text.Trimmed "1e309".toList "\u30001e309\n".toList :=
    Text.trim_eq_iff_trimmed.mp (by decide +kernel)
  have hWritten :
      Decimal.Written "1e309".toList { negative := false, significand := 1, exponent := 309 } :=
    Decimal.read?_eq_some_iff.mp (by decide +kernel)
  have hNamed : Text.Trimmed "-Infinity".toList " -Infinity".toList :=
    Text.trim_eq_iff_trimmed.mp (by decide +kernel)
  have hWord : Decimal.Word "-Infinity".toList :=
    @Decimal.Word.intro _ "Infinity".toList _ .minus (by decide)
  have hRead : read? "-.5e1".toList = some { negative := true, code := 0x4014000000000000 } := by
    decide +kernel
  have hLiteral : Radix.Literal "0x1F".toList 31 :=
    Radix.written_iff_literal.mp (Radix.read?_eq_some_iff.mp (by decide +kernel))
  have hPadded : Text.Padded "0b1".toList "\u20030b1".toList :=
    ⟨['\u2003'], [], rfl, List.forall_mem_singleton.mpr (by decide), List.forall_mem_nil _⟩
  refine ⟨⟨hLarge, hWritten, ?_⟩, ⟨hNamed, hWord, ?_⟩, ⟨hRead, ?_⟩, ⟨hLiteral, ?_⟩, hPadded, ?_⟩
  · rw [(read_eq_some_iff_numeral _).2.1 _ _ hLarge hWritten, not_lt]
    have hOut := @Decimal.infinity_le_of_large ⟨false, 1, 309⟩ (by decide) (by decide)
    rw [Binary64.units_infinityCode] at hOut
    have hLimit := le_of_mul_le_mul_right hOut Binary64.unitsPerOne_pos
    exact (sub_le_self _ (by positivity)).trans hLimit
  · exact (read_eq_some_iff_numeral _).2.2.1 _ hNamed hWord
  · exact (read_eq_some_iff_numeral _).2.2.2.1 _ hRead
  · exact (read_eq_some_iff_numeral _).2.2.2.2.1 _ _ hLiteral
  · exact (read_eq_some_iff_numeral _).2.2.2.2.2.2 _ hPadded

end Numeral

end Conform
