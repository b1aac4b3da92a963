import Conform.Proofs.NumeralValue
import Mathlib.Data.Nat.Digits.Defs

/-! # Radix literals

The digits of a literal are those of a table, and its value is theirs in the base that the mark names.
The reader takes the literals of at most 64 bits and rounds their values. It needs no more than the
border behind the second byte: a text that starts with a mark has one, and cutting there loses nothing.
-/

set_option autoImplicit false

namespace Conform

namespace Text

/-- The digits up to base sixteen, letters in either case. -/
def hexDigits : List (Char × Nat) := "0123456789abcdef".toList.zipIdx ++ "ABCDEF".toList.zipIdx 10

section Digits

variable {base digit : Nat} {c : Char}

/-- Characters of consecutive codes stand for consecutive digits. -/
theorem mem_hexDigits_of_run (low length first : Nat)
    (hRun : ∀ k < length, (Char.ofNat (low + k), k + first) ∈ hexDigits)
    (hLow : low ≤ c.toNat) (hHigh : c.toNat < low + length) :
    (c, c.toNat - low + first) ∈ hexDigits := by
  have hMem := hRun (c.toNat - low) (by omega)
  rwa [Nat.add_sub_cancel' hLow, Char.ofNat_toNat] at hMem

theorem mem_hexDigits_of_value (h : alphanumericValue? c = some digit) (hDigit : digit < 16) :
    (c, digit) ∈ hexDigits := by
  unfold alphanumericValue? at h
  split at h
  · rename_i hRange
    have hHigh : c.toNat ≤ 57 := hRange.2
    obtain rfl : c.toNat - 48 = digit := Option.some.inj h
    exact mem_hexDigits_of_run 48 10 0 (by decide) hRange.1 (by omega)
  · split at h
    · rename_i hRange
      obtain rfl : c.toNat - 97 + 10 = digit := Option.some.inj h
      exact mem_hexDigits_of_run 97 6 10 (by decide) hRange.1 (by omega)
    · split at h
      · rename_i hRange
        obtain rfl : c.toNat - 65 + 10 = digit := Option.some.inj h
        exact mem_hexDigits_of_run 65 6 10 (by decide) hRange.1 (by omega)
      · cases h

theorem digitValue?_eq_some_iff (hBase : base ≤ 16) :
    digitValue? base c = some digit ↔ (c, digit) ∈ hexDigits ∧ digit < base := by
  have hTable : ∀ entry ∈ hexDigits, alphanumericValue? entry.1 = some entry.2 := by decide
  rw [digitValue?, Option.filter_eq_some_iff, decide_eq_true_eq]
  constructor
  · rintro ⟨hValue, hDigit⟩
    exact ⟨mem_hexDigits_of_value hValue (by omega), hDigit⟩
  · rintro ⟨hMem, hDigit⟩
    exact ⟨hTable _ hMem, hDigit⟩

theorem digits_eq_forall₂ (hBase : base ≤ 16) : Digits base =
    List.Forall₂ (fun c digit => (c, digit) ∈ hexDigits ∧ digit < base) := by
  funext text digits
  simp only [Digits, digitValue?_eq_some_iff hBase]

theorem positional_eq_ofDigits (base : Nat) (digits : List Nat) :
    positional base digits = Nat.ofDigits base digits.reverse := by
  rw [Nat.ofDigits_eq_foldr, List.foldr_reverse, positional]
  congr 1
  funext value digit
  rw [Nat.mul_comm, Nat.add_comm]
  rfl

end Digits

end Text

namespace Numeral

namespace Radix

/-- A mark and the digits of its base behind it, of which there may be any number, and the value. -/
inductive Literal : List Char → Nat → Prop
  | intro {mark : Char} {base : Nat} {text : List Char} {digits : List Nat} :
      (mark, base) ∈ marks → text ≠ [] →
      List.Forall₂ (fun c digit => (c, digit) ∈ Text.hexDigits ∧ digit < base) text digits →
      Literal ('0' :: mark :: text) (Nat.ofDigits base digits.reverse)

/-- The reader on the bytes of a text. The mark is cut off behind the second byte, if a character ends
there. The digits are what stands behind this border. -/
def readBytes? (s : String) : Option Nat :=
  if h : String.Pos.Raw.IsValid s ⟨2⟩ then
    let border : s.Pos := ⟨⟨2⟩, h⟩
    match (s.sliceTo border).copy.toList with
    | ['0', mark] => do
      let base ← base? mark
      let digits ← Text.digits? base (s.sliceFrom border).copy.toList
      return Text.positional base digits
    | _ => none
  else none

section Language

variable {text : List Char} {n base : Nat} {mark : Char}

theorem base_le (h : (mark, base) ∈ marks) : base ≤ 16 := by
  have hMarks : ∀ entry ∈ marks, entry.2 ≤ 16 := by decide
  exact hMarks _ h

theorem written_iff_literal : Written text n ↔ Literal text n := by
  constructor
  · rintro ⟨hMark, hNonempty, hText⟩
    rw [Text.digits_eq_forall₂ (base_le hMark)] at hText
    rw [Text.positional_eq_ofDigits]
    exact .intro hMark hNonempty hText
  · rintro ⟨hMark, hNonempty, hText⟩
    rw [← Text.digits_eq_forall₂ (base_le hMark)] at hText
    rw [← Text.positional_eq_ofDigits]
    exact .intro hMark hNonempty hText

end Language

section Bytes

variable {s : String} {mark : Char} {text : List Char} {base : Nat}

/-- A text that starts with a mark has a border behind its second byte, and the digits stand behind it. -/
theorem exists_splits (hMark : (mark, base) ∈ marks) (hText : s.toList = '0' :: mark :: text) :
    ∃ h : String.Pos.Raw.IsValid s ⟨2⟩,
      String.Pos.Splits ⟨⟨2⟩, h⟩ (String.ofList ['0', mark]) (String.ofList text) := by
  have hBytes : ∀ entry ∈ marks, (String.ofList ['0', entry.1]).rawEndPos = ⟨2⟩ := by decide
  have hAppend : s = String.ofList ['0', mark] ++ String.ofList text := by
    rw [← String.ofList_append, ← String.ofList_toList (s := s), hText]
    rfl
  exact ⟨String.Pos.Raw.isValid_iff_exists_append.mpr ⟨_, _, hAppend, (hBytes _ hMark).symm⟩,
    hAppend, (hBytes _ hMark).symm⟩

/-- Reading by bytes never cuts a character in two and gives what reading by characters gives. -/
theorem readBytes?_eq (s : String) : readBytes? s = read? s.toList := by
  apply Option.ext
  intro n
  constructor
  · intro h
    unfold readBytes? at h
    split at h
    · rename_i hBorder
      dsimp only at h
      split at h
      · rename_i mark hFront
        have hText := congrArg String.toList (String.Pos.splits ⟨⟨2⟩, hBorder⟩).eq_append
        rw [String.toList_append, hFront] at hText
        rw [hText]
        exact h
      · cases h
    · cases h
  · intro h
    have hWritten := read?_eq_some_iff.mp h
    generalize hText : s.toList = chars at h hWritten
    obtain ⟨hMark, _, _⟩ := hWritten
    obtain ⟨hBorder, hSplits⟩ := exists_splits hMark hText
    unfold readBytes?
    rw [dif_pos hBorder]
    simp only [hSplits.copy_sliceTo_eq, hSplits.copy_sliceFrom_eq, String.toList_ofList]
    exact h

end Bytes

end Radix

section Rounding

variable {text : List Char} {n : ℕ} {x : Binary64}

theorem Radix.toBinary64?_eq_some_iff : Radix.toBinary64? n = some x ↔
    n < 2 ^ 64 ∧ x.negative = false ∧ x.IsNearest n := by
  have hLimit : wordLimit = 2 ^ 64 := rfl
  rw [Radix.toBinary64?, ← hLimit]
  constructor
  · intro h
    split at h
    · rename_i hWord
      cases h
      exact ⟨hWord, by simp [Binary64.ofInt], Binary64.isNearest_ofInt n hWord⟩
    · cases h
  · rintro ⟨hWord, hSign, hNearest⟩
    have hOwn := Binary64.isNearest_ofInt n hWord
    rw [dif_pos hWord, Option.some.injEq]
    apply Binary64.eq_of_code_eq
    · simp [Binary64.ofInt, hSign]
    · exact hOwn.code.unique hNearest.code

/-- Neither a sign nor a separator nor a blank, nor any character beyond ASCII. -/
theorem Radix.Literal.isAlphanum (h : Radix.Literal text n) : ∀ c ∈ text, c.isAlphanum = true := by
  have hMarks : ∀ entry ∈ Radix.marks, entry.1.isAlphanum = true := by decide
  have hDigits : ∀ entry ∈ Text.hexDigits, entry.1.isAlphanum = true := by decide
  obtain ⟨hMark, -, hText⟩ := h
  refine List.forall_mem_cons.mpr ⟨by decide, List.forall_mem_cons.mpr ⟨hMarks _ hMark, ?_⟩⟩
  clear hMark
  induction hText with
  | nil => exact List.forall_mem_nil _
  | cons hDigit _ ih => exact List.forall_mem_cons.mpr ⟨hDigits _ hDigit.1, ih⟩

theorem radix?_eq_some_iff : radix? text = some x ↔
    ∃ n, Radix.Literal text n ∧ n < 2 ^ 64 ∧ x.negative = false ∧ x.IsNearest (n : ℕ) := by
  simp only [radix?, Option.bind_eq_some_iff, Radix.read?_eq_some_iff, Radix.written_iff_literal,
    Radix.toBinary64?_eq_some_iff]

end Rounding

/-- The texts that are read as radix numerals are the literals of at most 64 bits, and each is read as its
value rounded to the nearest double. -/
theorem radix_eq_some_iff_literal (s : String) :
    (∀ x, radix? s.toList = some x ↔
      ∃ n, Radix.Literal s.toList n ∧ n < 2 ^ 64 ∧ x.negative = false ∧ x.IsNearest (n : ℕ)) ∧
    (∀ c ∈ s.toList, c.isAlphanum = false → radix? s.toList = none) ∧
    radix? s.toList = (Radix.readBytes? s).bind Radix.toBinary64? := by
  refine ⟨fun x => radix?_eq_some_iff, ?_, by rw [Radix.readBytes?_eq, radix?]⟩
  intro c hc hOther
  rw [Option.eq_none_iff_forall_ne_some]
  intro x hx
  obtain ⟨n, hLiteral, _⟩ := radix?_eq_some_iff.mp hx
  rw [hLiteral.isAlphanum c hc] at hOther
  cases hOther

-- The greatest value rounds up to two to the power 64. The second byte of the last text lies within a
-- character.
theorem radix_eq_some_iff_literal_limit :
    (∃ n, Radix.Literal "0X00fFFFffffffffffff".toList n ∧ n < 2 ^ 64 ∧
      Binary64.IsNearest { negative := false, code := 0x43f0000000000000 } (n : ℕ)) ∧
    ('+' ∈ "0b+1".toList ∧ '+'.isAlphanum = false ∧ radix? "0b+1".toList = none) ∧
    ¬ String.Pos.Raw.IsValid "0é1" ⟨2⟩ ∧
    radix? "0é1".toList = (Radix.readBytes? "0é1").bind Radix.toBinary64? := by
  have hRead : radix? "0X00fFFFffffffffffff".toList =
      some { negative := false, code := 0x43f0000000000000 } := by decide +kernel
  obtain ⟨n, hLiteral, hWord, -, hNearest⟩ := (radix_eq_some_iff_literal _).1 _ |>.mp hRead
  exact ⟨⟨n, hLiteral, hWord, hNearest⟩,
    ⟨by decide, by decide, (radix_eq_some_iff_literal "0b+1").2.1 '+' (by decide) (by decide)⟩,
    by decide +kernel, (radix_eq_some_iff_literal "0é1").2.2⟩

end Numeral

end Conform
