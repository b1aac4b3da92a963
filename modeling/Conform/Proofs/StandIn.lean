import Conform.Coerce.Scalar
import Conform.Proofs.Rounding

/-! # What single values stand for

The rules for stand-ins, each as a relation: a value denotes a number, a boolean or null in a mode.
The predicates hold of exactly the values that denote something, and there the casters give what is
denoted, so no cast that follows its predicate fails.
-/

set_option autoImplicit false

namespace Conform

namespace Number

/-- A whole number, held as an integer or as a double. -/
def IsWhole : Number → Prop
  | .int _ _ => True
  | .float x => x.isIntegral = true

/-- One stands for true, zero of either sign for false. -/
def IsBit (b : Bool) : Number → Prop
  | .int n _ => n = if b then 1 else 0
  | .float x => if b then x = .one else x.isZero = true

theorem isIntegral_toBinary64_iff (n : Number) : n.toBinary64.isIntegral = true ↔ n.IsWhole := by
  cases n with
  | int n inRange => simp [toBinary64, IsWhole, Binary64.isIntegral_ofInt]
  | float x => rfl

theorem isWhole_ofBinary64_iff (x : Binary64) :
    (ofBinary64 x).IsWhole ↔ x.isIntegral = true := by
  unfold ofBinary64
  split
  · rename_i h
    simp [IsWhole, h.1]
  · rfl

theorem isBit_true_iff (n : Number) : n.IsBit true ↔ n.toBinary64.same .one = true := by
  rw [Binary64.same_one_iff]
  cases n with
  | int n inRange => exact (Binary64.ofInt_eq_one_iff inRange.natAbs_lt).symm
  | float x => rfl

theorem isBit_false_iff (n : Number) : n.IsBit false ↔ n.toBinary64.isZero = true := by
  cases n with
  | int n inRange => exact (Binary64.isZero_ofInt_iff inRange.natAbs_lt).symm
  | float x => rfl

theorem same_self (n : Number) : n.same n = true := by
  cases n <;> simp [same, Binary64.same]

theorem ofBool_eq (b : Bool) : ofBool b = if b then .int 1 (by decide) else .int 0 (by decide) := rfl

theorem IsBit.eq {n : Number} {b c : Bool} (hb : n.IsBit b) (hc : n.IsBit c) : b = c := by
  cases n <;> cases b <;> cases c <;> simp_all [IsBit, Binary64.isZero, Binary64.one]

theorem IsBit.isWhole {n : Number} {b : Bool} (h : n.IsBit b) : n.IsWhole := by
  cases n with
  | int n inRange => trivial
  | float x =>
    cases b with
    | true =>
      obtain rfl : x = .one := h
      show Binary64.one.isIntegral = true
      decide +kernel
    | false =>
      have hCode : x.code = 0 := beq_iff_eq.mp h
      have hUnits : x.units = 0 := by
        rw [Binary64.units, hCode]
        rfl
      simp [IsWhole, Binary64.isIntegral, hUnits]

end Number

namespace Json

/-- Numbers denote themselves. In lenient mode true denotes one, false zero and a numeral its number. -/
inductive DenotesNumber (mode : Mode) : Json → Number → Prop
  | number (n : Number) : DenotesNumber mode (.num n) n
  | boolean (b : Bool) : mode = .lenient →
      DenotesNumber mode (.bool b) (if b then .int 1 (by decide) else .int 0 (by decide))
  | numeral {text : String} {x : Binary64} : mode = .lenient →
      Numeral.read? text.toList = some x → DenotesNumber mode (.str text) (.ofBinary64 x)

def booleanTexts : List (String × Bool) :=
  [("true", true), ("false", false), ("1", true), ("0", false)]

inductive DenotesBoolean (mode : Mode) : Json → Bool → Prop
  | boolean (b : Bool) : DenotesBoolean mode (.bool b) b
  | bit {n : Number} {b : Bool} : mode = .lenient → n.IsBit b → DenotesBoolean mode (.num n) b
  | text {text : String} {b : Bool} : mode = .lenient → (text, b) ∈ booleanTexts →
      DenotesBoolean mode (.str text) b

inductive DenotesNull (mode : Mode) : Json → Prop
  | null : DenotesNull mode .null
  | text : mode = .lenient → DenotesNull mode (.str "null")

/-- A boolean or one of the numbers that stand for one, with the number and the boolean that it denotes
in lenient mode. -/
inductive IsBit : Json → Number → Bool → Prop
  | boolean (b : Bool) : IsBit (.bool b) (if b then .int 1 (by decide) else .int 0 (by decide)) b
  | number {n : Number} {b : Bool} : n.IsBit b → IsBit (.num n) n b

section Denotations

variable {mode : Mode} {value : Json}

theorem denotesNumber_iff {n : Number} :
    value.DenotesNumber mode n ↔ value.isNumber mode = true ∧ value.toNumber? = some n := by
  constructor
  · rintro (_ | ⟨b, rfl⟩ | ⟨rfl, hRead⟩)
    · exact ⟨rfl, rfl⟩
    · exact ⟨rfl, congrArg some (Number.ofBool_eq b)⟩
    · simp [isNumber, numeric?, toNumber?, hRead]
  · rintro ⟨hTest, hCast⟩
    cases value with
    | num m =>
      obtain rfl : m = n := Option.some.inj hCast
      exact .number m
    | bool b =>
      have hMode : mode = .lenient := by simpa [isNumber, numeric?] using hTest
      obtain rfl : Number.ofBool b = n := Option.some.inj hCast
      rw [Number.ofBool_eq]
      exact .boolean b hMode
    | str text =>
      have hMode : mode = .lenient := by
        cases mode with
        | strict => cases hTest
        | lenient => rfl
      obtain ⟨x, hRead, rfl⟩ := Option.map_eq_some_iff.mp hCast
      exact .numeral hMode hRead
    | null => cases hCast
    | arr elements => cases hCast
    | obj entries => cases hCast

theorem isNumber_iff : value.isNumber mode = true ↔ ∃ n, value.DenotesNumber mode n := by
  constructor
  · intro hTest
    have hCast : value.toNumber?.isSome = true := by
      cases value <;> simp_all [isNumber, numeric?, toNumber?]
      cases mode <;> simp_all
    obtain ⟨n, hn⟩ := Option.isSome_iff_exists.mp hCast
    exact ⟨n, denotesNumber_iff.mpr ⟨hTest, hn⟩⟩
  · rintro ⟨n, h⟩
    exact (denotesNumber_iff.mp h).1

theorem DenotesNumber.eq {n m : Number} (hn : value.DenotesNumber mode n)
    (hm : value.DenotesNumber mode m) : n = m :=
  Option.some.inj ((denotesNumber_iff.mp hn).2.symm.trans (denotesNumber_iff.mp hm).2)

theorem DenotesNumber.isInt_iff {n : Number} (h : value.DenotesNumber mode n) :
    value.isInt mode = true ↔ n.IsWhole := by
  rcases h with n | ⟨b, rfl⟩ | ⟨rfl, hRead⟩
  · simpa [isInt, numeric?] using n.isIntegral_toBinary64_iff
  · have hBit : (if b then Binary64.one else .zero false) = (Number.ofBool b).toBinary64 := by
      cases b <;> decide +kernel
    rw [← Number.ofBool_eq]
    simpa [isInt, numeric?, hBit] using (Number.ofBool b).isIntegral_toBinary64_iff
  · simpa [isInt, numeric?, hRead] using (Number.isWhole_ofBinary64_iff _).symm

theorem isInt_iff :
    value.isInt mode = true ↔ ∃ n, value.DenotesNumber mode n ∧ n.IsWhole := by
  constructor
  · intro hTest
    have hNumber : value.isNumber mode = true := by
      unfold isInt at hTest
      unfold isNumber
      cases h : value.numeric? mode with
      | none => simp [h] at hTest
      | some x => rfl
    obtain ⟨n, hn⟩ := isNumber_iff.mp hNumber
    exact ⟨n, hn, hn.isInt_iff.mp hTest⟩
  · rintro ⟨n, hn, hWhole⟩
    exact hn.isInt_iff.mpr hWhole

theorem toBoolean?_text_iff {text : String} {b : Bool} :
    (str text).toBoolean? = some b ↔ (text, b) ∈ booleanTexts := by
  by_cases hTrue : text = "true" ∨ text = "1"
  · rcases hTrue with rfl | rfl <;> cases b <;> simp [toBoolean?, booleanTexts]
  · by_cases hFalse : text = "false" ∨ text = "0"
    · rcases hFalse with rfl | rfl <;> cases b <;> simp [toBoolean?, booleanTexts]
    · simp only [not_or] at hTrue hFalse
      simp [toBoolean?, booleanTexts, hTrue, hFalse]

theorem toBoolean?_num_iff {n : Number} {b : Bool} :
    (num n).toBoolean? = some b ↔ n.IsBit b := by
  by_cases hOne : n.IsBit true
  · rw [toBoolean?, if_pos (n.isBit_true_iff.mp hOne)]
    constructor
    · intro h
      exact Option.some.inj h ▸ hOne
    · intro h
      rw [h.eq hOne]
  · have hNotOne : ¬ n.toBinary64.same .one = true := fun h => hOne (n.isBit_true_iff.mpr h)
    rw [toBoolean?, if_neg hNotOne]
    cases b with
    | true => simp [hOne]
    | false => simp [n.isBit_false_iff]

theorem denotesBoolean_iff {b : Bool} :
    value.DenotesBoolean mode b ↔ value.isBoolean mode = true ∧ value.toBoolean? = some b := by
  constructor
  · rintro (_ | ⟨rfl, hBit⟩ | ⟨rfl, hText⟩)
    · exact ⟨rfl, rfl⟩
    · refine ⟨?_, toBoolean?_num_iff.mpr hBit⟩
      cases b with
      | true => simp [isBoolean, Number.isBit_true_iff _ |>.mp hBit]
      | false => simp [isBoolean, Number.isBit_false_iff _ |>.mp hBit]
    · refine ⟨?_, toBoolean?_text_iff.mpr hText⟩
      simp only [booleanTexts, List.mem_cons, List.not_mem_nil, or_false, Prod.mk.injEq] at hText
      rcases hText with ⟨rfl, _⟩ | ⟨rfl, _⟩ | ⟨rfl, _⟩ | ⟨rfl, _⟩ <;> rfl
  · rintro ⟨hTest, hCast⟩
    cases value with
    | bool c =>
      obtain rfl : c = b := Option.some.inj hCast
      exact .boolean c
    | num n =>
      have hMode : mode = .lenient := by
        cases mode with
        | strict => cases hTest
        | lenient => rfl
      exact .bit hMode (toBoolean?_num_iff.mp hCast)
    | str text =>
      have hMode : mode = .lenient := by
        cases mode with
        | strict => cases hTest
        | lenient => rfl
      exact .text hMode (toBoolean?_text_iff.mp hCast)
    | null => cases hCast
    | arr elements => cases hCast
    | obj entries => cases hCast

theorem isBoolean_iff : value.isBoolean mode = true ↔ ∃ b, value.DenotesBoolean mode b := by
  constructor
  · intro hTest
    have hCast : value.toBoolean?.isSome = true := by
      cases value with
      | bool b => rfl
      | num n =>
        simp only [isBoolean, Bool.and_eq_true, Bool.or_eq_true] at hTest
        rcases hTest.2 with hOne | hZero
        · rw [toBoolean?_num_iff.mpr (n.isBit_true_iff.mpr hOne)]
          rfl
        · rw [toBoolean?_num_iff.mpr (n.isBit_false_iff.mpr hZero)]
          rfl
      | str text =>
        simp only [isBoolean, Bool.and_eq_true, List.contains_iff_mem, List.mem_cons,
          List.not_mem_nil, or_false] at hTest
        rcases hTest.2 with rfl | rfl | rfl | rfl <;> rfl
      | null => cases hTest
      | arr elements => cases hTest
      | obj entries => cases hTest
    obtain ⟨b, hb⟩ := Option.isSome_iff_exists.mp hCast
    exact ⟨b, denotesBoolean_iff.mpr ⟨hTest, hb⟩⟩
  · rintro ⟨b, h⟩
    exact (denotesBoolean_iff.mp h).1

@[simp] theorem denotesNumber_strict_iff {n : Number} :
    value.DenotesNumber .strict n ↔ value = .num n := by
  constructor
  · rintro (_ | ⟨_, hMode⟩ | ⟨hMode, _⟩)
    · rfl
    · cases hMode
    · cases hMode
  · rintro rfl
    exact .number n

@[simp] theorem denotesBoolean_strict_iff {b : Bool} :
    value.DenotesBoolean .strict b ↔ value = .bool b := by
  constructor
  · rintro (_ | ⟨hMode, _⟩ | ⟨hMode, _⟩)
    · rfl
    · cases hMode
    · cases hMode
  · rintro rfl
    exact .boolean b

@[simp] theorem denotesNull_strict_iff : value.DenotesNull .strict ↔ value = .null := by
  constructor
  · rintro (_ | hMode)
    · rfl
    · cases hMode
  · rintro rfl
    exact .null

theorem denotesNull_iff : value.DenotesNull mode ↔ value.isNull mode = true := by
  constructor
  · rintro (_ | rfl) <;> rfl
  · intro hTest
    cases value with
    | null => exact .null
    | str text =>
      simp only [isNull, Bool.and_eq_true, beq_iff_eq] at hTest
      obtain ⟨hMode, rfl⟩ := hTest
      exact .text hMode
    | bool b => cases hTest
    | num n => cases hTest
    | arr elements => cases hTest
    | obj entries => cases hTest

theorem IsBit.denotesNumber {n : Number} {b : Bool} (h : value.IsBit n b) :
    value.DenotesNumber .lenient n := by
  cases h with
  | boolean b => exact .boolean b rfl
  | number _ => exact .number n

theorem IsBit.denotesBoolean {n : Number} {b : Bool} (h : value.IsBit n b) :
    value.DenotesBoolean .lenient b := by
  cases h with
  | boolean b => exact .boolean b
  | number hBit => exact .bit rfl hBit

theorem IsBit.isWhole {n : Number} {b : Bool} (h : value.IsBit n b) : n.IsWhole := by
  cases h with
  | boolean b => cases b <;> trivial
  | number hBit => exact hBit.isWhole

end Denotations

end Json

end Conform
