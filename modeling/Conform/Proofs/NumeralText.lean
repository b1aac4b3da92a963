import Conform.Numeral
import Conform.Proofs.Bind
import Mathlib.Data.List.TakeWhile

/-! # The language of numerals

Decimal and radix numerals as relations between a text and what is written there. The readers take the
texts of these languages and no others, and give what is written, so a text is written in one way only.
No text belongs to both languages. Blanks at the ends of a text are no part of its numeral.
-/

set_option autoImplicit false

namespace Conform

namespace Text

/-- The text is a run of digits with these values. -/
def Digits (base : Nat) (text : List Char) (digits : List Nat) : Prop :=
  List.Forall₂ (fun c digit => digitValue? base c = some digit) text digits

section Digits

variable {base : Nat} {text front tail : List Char} {digits : List Nat}

theorem digits_of_takeDigits (h : takeDigits base text = (digits, tail)) :
    ∃ front, text = front ++ tail ∧ Digits base front digits := by
  induction text generalizing digits with
  | nil =>
    cases h
    exact ⟨[], rfl, .nil⟩
  | cons c rest ih =>
    rw [takeDigits] at h
    split at h
    · rename_i digit hDigit
      cases h
      obtain ⟨front, hRest, hFront⟩ := ih rfl
      exact ⟨c :: front, congrArg (c :: ·) hRest, .cons hDigit hFront⟩
    · cases h
      exact ⟨[], rfl, .nil⟩

theorem takeDigits_append (h : Digits base front digits)
    (hTail : ∀ c ∈ tail.head?, digitValue? base c = none) :
    takeDigits base (front ++ tail) = (digits, tail) := by
  induction h with
  | nil =>
    cases tail with
    | nil => rfl
    | cons c rest => simp [takeDigits, hTail c rfl]
  | cons hDigit _ ih => simp [takeDigits, hDigit, ih]

theorem mapM_digitValue?_eq_some_iff :
    text.mapM (digitValue? base) = some digits ↔ Digits base text digits :=
  mapM_eq_some_iff

theorem digits?_eq_some_iff :
    digits? base text = some digits ↔ text ≠ [] ∧ Digits base text digits := by
  rw [← mapM_digitValue?_eq_some_iff, digits?]
  cases text <;> simp

theorem Digits.ne_nil (h : Digits base text digits) (hText : text ≠ []) : digits ≠ [] := by
  rintro rfl
  cases h
  exact hText rfl

theorem Digits.exists_head (h : Digits base text digits) :
    ∀ c ∈ text.head?, ∃ digit, digitValue? base c = some digit := by
  cases h with
  | nil => simp
  | cons hDigit _ => simpa using ⟨_, hDigit⟩

end Digits

/-- The core stands between blanks. -/
def Padded (core text : List Char) : Prop := ∃ front back, text = front ++ (core ++ back) ∧
  (∀ c ∈ front, isBlank c = true) ∧ ∀ c ∈ back, isBlank c = true

section Blanks

variable {core text front back : List Char}

theorem trimStart_append (h : ∀ c ∈ front, isBlank c = true) :
    trimStart (front ++ text) = trimStart text := by
  rw [trimStart, trimStart, List.dropWhile_append_of_pos h]

theorem trimEnd_append (h : ∀ c ∈ back, isBlank c = true) :
    trimEnd (text ++ back) = trimEnd text := by
  rw [trimEnd, trimEnd, List.reverse_append, List.dropWhile_append_of_pos]
  simpa using h

theorem trim_of_padded (h : Padded core text) : trim text = trim core := by
  obtain ⟨front, back, rfl, hFront, hBack⟩ := h
  rw [trim, trim, trimStart_append hFront, trimStart, trimStart, List.dropWhile_append]
  split
  · rename_i hCore
    rw [List.isEmpty_iff.mp hCore, List.dropWhile_eq_nil_iff.mpr hBack]
  · exact trimEnd_append hBack

theorem trim_of_not_blank (h : ∀ c ∈ core, isBlank c = false) : trim core = core := by
  have hStart : ∀ text : List Char, (∀ c ∈ text, isBlank c = false) →
      text.dropWhile isBlank = text := by
    intro text hText
    cases text with
    | nil => rfl
    | cons c rest => exact List.dropWhile_cons_of_neg (by simp [hText c List.mem_cons_self])
  rw [trim, trimStart, hStart core h, trimEnd, hStart core.reverse (by simpa using h),
    List.reverse_reverse]

theorem isBlank_eq_false {c : Char} (hLow : 0x20 < c.toNat) (hHigh : c.toNat < 0x85) :
    isBlank c = false := by
  simp only [isBlank, blankRanges, Ranges.has]
  split
  · omega
  · split
    · omega
    · rw [if_pos (by omega), decide_eq_false_iff_not]
      omega

theorem isBlank_of_digit {base digit : Nat} {c : Char} (h : digitValue? base c = some digit) :
    isBlank c = false := by
  obtain ⟨hValue, _⟩ := Option.filter_eq_some_iff.mp h
  have hRange : '0'.toNat ≤ c.toNat ∧ c.toNat ≤ 'z'.toNat := by
    unfold alphanumericValue? at hValue
    split at hValue
    · rename_i hDigit
      exact ⟨hDigit.1, Nat.le_trans hDigit.2 (by decide)⟩
    · split at hValue
      · rename_i hLower
        exact ⟨Nat.le_trans (by decide) hLower.1, hLower.2⟩
      · split at hValue
        · rename_i hUpper
          exact ⟨Nat.le_trans (by decide) hUpper.1, Nat.le_trans hUpper.2 (by decide)⟩
        · cases hValue
  exact isBlank_eq_false (Nat.lt_of_lt_of_le (by decide) hRange.1)
    (Nat.lt_of_le_of_lt hRange.2 (by decide))

end Blanks
end Text

namespace Numeral

namespace Decimal

inductive Sign : List Char → Bool → Prop
  | absent : Sign [] false
  | plus : Sign ['+'] false
  | minus : Sign ['-'] true

/-- Either nothing or a point and the digits behind it, of which there may be none. -/
inductive Fraction : List Char → List Nat → Prop
  | absent : Fraction [] []
  | point {text : List Char} {digits : List Nat} : Text.Digits 10 text digits →
      Fraction ('.' :: text) digits

inductive Exponent : List Char → Int → Prop
  | absent : Exponent [] 0
  | marked {mark : Char} {sign text : List Char} {negative : Bool} {digits : List Nat} :
      mark = 'e' ∨ mark = 'E' → Sign sign negative → text ≠ [] → Text.Digits 10 text digits →
      Exponent (mark :: (sign ++ text)) (signed negative (Text.positional 10 digits))

/-- The digits before and behind the point form one significand. There is at least one of them. -/
inductive Written : List Char → Decimal → Prop
  | intro {sign front fraction exponent : List Char} {negative : Bool} {whole places : List Nat}
      {power : Int} : Sign sign negative → Text.Digits 10 front whole → Fraction fraction places →
      ¬ (whole = [] ∧ places = []) → Exponent exponent power →
      Written (sign ++ (front ++ (fraction ++ exponent)))
        { negative, significand := Text.positional 10 (whole ++ places),
          exponent := power - places.length }

section Reading

variable {text rest : List Char} {negative : Bool} {places : List Nat} {power : Int}

theorem sign_of_takeSign (h : takeSign text = (negative, rest)) :
    ∃ sign, text = sign ++ rest ∧ Sign sign negative := by
  unfold takeSign at h
  split at h <;> cases h
  · exact ⟨['-'], rfl, .minus⟩
  · exact ⟨['+'], rfl, .plus⟩
  · exact ⟨[], rfl, .absent⟩

theorem takeSign_append {sign : List Char} (h : Sign sign negative)
    (hRest : ∀ c ∈ rest.head?, c ≠ '-' ∧ c ≠ '+') : takeSign (sign ++ rest) = (negative, rest) := by
  cases h with
  | absent =>
    cases rest with
    | nil => rfl
    | cons c rest =>
      have hc := hRest c rfl
      rw [List.nil_append, takeSign]
      · rintro rest' ⟨⟩
        exact hc.1 rfl
      · rintro rest' ⟨⟩
        exact hc.2 rfl
  | plus => rfl
  | minus => rfl

theorem fraction_of_takeFraction (h : takeFraction text = (places, rest)) :
    ∃ fraction, text = fraction ++ rest ∧ Fraction fraction places := by
  unfold takeFraction at h
  split at h
  · obtain ⟨front, hText, hFront⟩ := Text.digits_of_takeDigits h
    exact ⟨'.' :: front, congrArg ('.' :: ·) hText, .point hFront⟩
  · cases h
    exact ⟨[], rfl, .absent⟩

theorem takeFraction_append {fraction : List Char} (h : Fraction fraction places)
    (hRest : ∀ c ∈ rest.head?, c ≠ '.' ∧ Text.digitValue? 10 c = none) :
    takeFraction (fraction ++ rest) = (places, rest) := by
  cases h with
  | absent =>
    cases rest with
    | nil => rfl
    | cons c rest =>
      rw [List.nil_append, takeFraction]
      rintro rest' ⟨⟩
      exact (hRest '.' rfl).1 rfl
  | point hDigits => exact Text.takeDigits_append hDigits fun c hc => (hRest c hc).2

theorem not_sign_of_digits {front : List Char} {digits : List Nat} (h : Text.Digits 10 front digits) :
    ∀ c ∈ front.head?, c ≠ '-' ∧ c ≠ '+' := by
  intro c hc
  obtain ⟨digit, hDigit⟩ := h.exists_head c hc
  constructor <;> rintro rfl <;> cases hDigit

theorem exponent?_eq_some_iff : exponent? text = some power ↔ Exponent text power := by
  constructor
  · intro h
    unfold exponent? at h
    split at h
    · cases h
      exact .absent
    · rename_i mark rest
      split at h
      · rename_i hMark
        rcases hSign : takeSign rest with ⟨negative, unsigned⟩
        simp only [hSign] at h
        obtain ⟨digits, hDigits, rfl⟩ := Option.map_eq_some_iff.mp h
        obtain ⟨sign, rfl, hSign'⟩ := sign_of_takeSign hSign
        obtain ⟨hNonempty, hDigits⟩ := Text.digits?_eq_some_iff.mp hDigits
        exact .marked hMark hSign' hNonempty hDigits
      · cases h
  · intro h
    cases h with
    | absent => rfl
    | marked hMark hSign hNonempty hDigits =>
      rw [exponent?, if_pos hMark, takeSign_append hSign (not_sign_of_digits hDigits)]
      exact Option.map_eq_some_iff.mpr
        ⟨_, Text.digits?_eq_some_iff.mpr ⟨hNonempty, hDigits⟩, rfl⟩

theorem Exponent.head_eq (h : Exponent text power) : ∀ c ∈ text.head?, c = 'e' ∨ c = 'E' := by
  cases h with
  | absent => simp
  | marked hMark _ _ _ => simpa using hMark

theorem Exponent.not_point (h : Exponent text power) :
    ∀ c ∈ text.head?, c ≠ '.' ∧ Text.digitValue? 10 c = none := by
  intro c hc
  rcases h.head_eq c hc with rfl | rfl <;> decide

theorem Fraction.not_digit {fraction exponent : List Char} (h : Fraction fraction places)
    (hExponent : Exponent exponent power) :
    ∀ c ∈ (fraction ++ exponent).head?, Text.digitValue? 10 c = none := by
  cases h with
  | absent => exact fun c hc => (hExponent.not_point c hc).2
  | point _ =>
    intro c hc
    obtain rfl : '.' = c := Option.some.inj hc
    decide

/-- Where no digit stands before the point, the point itself does. -/
theorem not_sign_of_significand {front fraction exponent : List Char} {whole : List Nat}
    (hFront : Text.Digits 10 front whole) (hFraction : Fraction fraction places)
    (hSome : ¬ (whole = [] ∧ places = [])) :
    ∀ c ∈ (front ++ (fraction ++ exponent)).head?, c ≠ '-' ∧ c ≠ '+' := by
  cases hFront with
  | nil =>
    cases hFraction with
    | absent => exact absurd ⟨rfl, rfl⟩ hSome
    | point _ =>
      intro c hc
      obtain rfl : '.' = c := Option.some.inj hc
      decide
  | cons hDigit hDigits =>
    have hHead := not_sign_of_digits (List.Forall₂.cons hDigit hDigits)
    exact fun c hc => hHead c hc

theorem read?_eq_some_iff {x : Decimal} : read? text = some x ↔ Written text x := by
  constructor
  · intro h
    rcases hSign : takeSign text with ⟨negative, unsigned⟩
    rcases hWhole : Text.takeDigits 10 unsigned with ⟨whole, pointed⟩
    rcases hFraction : takeFraction pointed with ⟨places, exponent⟩
    obtain ⟨sign, rfl, hSign'⟩ := sign_of_takeSign hSign
    obtain ⟨front, rfl, hFront⟩ := Text.digits_of_takeDigits hWhole
    obtain ⟨fraction, rfl, hFraction'⟩ := fraction_of_takeFraction hFraction
    simp only [read?, hSign, hWhole, hFraction] at h
    split at h
    · cases h
    · rename_i hSome
      obtain ⟨power, hPower, rfl⟩ := Option.map_eq_some_iff.mp h
      exact .intro hSign' hFront hFraction' (by simpa using hSome) (exponent?_eq_some_iff.mp hPower)
  · rintro ⟨hSign, hFront, hFraction, hSome, hExponent⟩
    have hWhole := Text.takeDigits_append hFront (hFraction.not_digit hExponent)
    simp only [read?, takeSign_append hSign (not_sign_of_significand hFront hFraction hSome), hWhole,
      takeFraction_append hFraction hExponent.not_point, exponent?_eq_some_iff.mpr hExponent]
    rw [if_neg (by simpa using hSome)]
    rfl

end Reading

end Decimal

namespace Radix

/-- The bases and the letters that mark them. -/
def marks : List (Char × Nat) := [('x', 16), ('X', 16), ('o', 8), ('O', 8), ('b', 2), ('B', 2)]

inductive Written : List Char → Nat → Prop
  | intro {mark : Char} {base : Nat} {text : List Char} {digits : List Nat} :
      (mark, base) ∈ marks → text ≠ [] → Text.Digits base text digits →
      Written ('0' :: mark :: text) (Text.positional base digits)

theorem base?_eq_some_iff {mark : Char} {base : Nat} :
    base? mark = some base ↔ (mark, base) ∈ marks := by
  unfold base? marks
  constructor
  · intro h
    split at h
    · rename_i hMark
      rcases hMark with rfl | rfl <;> cases h <;> decide
    · split at h
      · rename_i hMark
        rcases hMark with rfl | rfl <;> cases h <;> decide
      · split at h
        · rename_i hMark
          rcases hMark with rfl | rfl <;> cases h <;> decide
        · cases h
  · intro h
    simp only [List.mem_cons, Prod.mk.injEq, List.not_mem_nil, or_false] at h
    rcases h with ⟨rfl, rfl⟩ | ⟨rfl, rfl⟩ | ⟨rfl, rfl⟩ | ⟨rfl, rfl⟩ | ⟨rfl, rfl⟩ | ⟨rfl, rfl⟩ <;>
      decide

theorem read?_eq_some_iff {text : List Char} {n : Nat} : read? text = some n ↔ Written text n := by
  constructor
  · intro h
    unfold read? at h
    split at h
    · obtain ⟨base, hBase, h⟩ := Option.bind_eq_some_iff.mp h
      obtain ⟨digits, hDigits, h⟩ := Option.bind_eq_some_iff.mp h
      obtain ⟨hNonempty, hDigits⟩ := Text.digits?_eq_some_iff.mp hDigits
      cases h
      exact .intro (base?_eq_some_iff.mp hBase) hNonempty hDigits
    · cases h
  · rintro ⟨hMark, hNonempty, hDigits⟩
    rw [read?, base?_eq_some_iff.mpr hMark]
    simp [Text.digits?_eq_some_iff.mpr ⟨hNonempty, hDigits⟩]

/-- The mark of a base ends the digits of a decimal numeral and cannot follow them. -/
theorem Written.not_decimal {text : List Char} {n : Nat} (h : Written text n) :
    Decimal.read? text = none := by
  obtain ⟨hMark, _, _⟩ := h
  simp only [marks, List.mem_cons, Prod.mk.injEq, List.not_mem_nil, or_false] at hMark
  rcases hMark with ⟨rfl, _⟩ | ⟨rfl, _⟩ | ⟨rfl, _⟩ | ⟨rfl, _⟩ | ⟨rfl, _⟩ | ⟨rfl, _⟩ <;> rfl

end Radix

end Numeral

end Conform
