import Conform.Proofs.Cursor
import Conform.Proofs.Leafwise

/-! # Coercing an accepted record again

An accepted record is native data of its schema: strict coercion returns it unchanged. Lenient
coercion accepts it too, but a boolean or a one or zero may change hands between a number kind and
the kind boolean. The first kind of the list that reads all four of them decides, and it decides the
same way ever after.
-/

set_option autoImplicit false

namespace Conform

namespace Kind

/-- The kinds to which a lenient one or zero and a lenient boolean are the same. -/
def readsBits : Kind → Bool
  | .int | .float | .boolean | .mixed => true
  | .string | .null => false

def leading (kinds : List Kind) : Option Kind := kinds.find? readsBits

/-- A leaf that a second lenient reading changes, and what it changes to. -/
inductive Turns (kinds : List Kind) : Json → Json → Prop
  | toNumber {kind : Kind} (b : Bool) : leading kinds = some kind → kind ≠ .boolean →
      Turns kinds (.bool b) (.num (if b then .int 1 (by decide) else .int 0 (by decide)))
  | toBoolean {n : Number} {b : Bool} : leading kinds = some .boolean → n.IsBit b →
      Turns kinds (.num n) (.bool b)

def Settled (kinds : List Kind) (out : Json) : Prop := ∀ other, ¬ Turns kinds out other

def Settles (kinds : List Kind) (out again : Json) : Prop :=
  Turns kinds out again ∨ Settled kinds out ∧ out = again

section Again

variable {mode : Mode} {value out again : Json} {kind : Kind} {kinds : List Kind}

theorem fits_of_readsBits {n : Number} {b : Bool} (hBit : value.IsBit n b)
    (hKind : kind.readsBits = true) :
    kind.Fits .lenient value (if kind = .boolean then .bool b else .num n) := by
  cases kind with
  | int => exact .int hBit.denotesNumber hBit.isWhole
  | float => exact .float hBit.denotesNumber
  | boolean => exact .boolean hBit.denotesBoolean
  | mixed => exact .mixedNumber hBit.denotesNumber
  | string | null => cases hKind

theorem Fits.readsBits {n : Number} {b : Bool} (hBit : value.IsBit n b)
    (h : kind.Fits .lenient value out) : kind.readsBits = true := by
  cases hBit <;> cases h <;> first | rfl | contradiction

/-- The leading kind alone decides what becomes of a bit. -/
theorem FitsFirst.eq_of_bit {n : Number} {b : Bool} (hBit : value.IsBit n b)
    (h : FitsFirst .lenient value kinds out) :
    ∃ kind, leading kinds = some kind ∧ out = if kind = .boolean then .bool b else .num n := by
  induction h with
  | @here kind rest out hFits =>
    have hKind := hFits.readsBits hBit
    refine ⟨kind, ?_, hFits.eq (fits_of_readsBits hBit hKind)⟩
    rw [leading, List.find?_cons_of_pos hKind]
  | @later kind rest out hNone _ ih =>
    have hKind : ¬ kind.readsBits = true := fun hKind => hNone _ (fits_of_readsBits hBit hKind)
    rw [leading, List.find?_cons_of_neg hKind]
    exact ih

theorem settles_of_bit {n : Number} {b : Bool} (hBit : value.IsBit n b)
    (h : FitsFirst .lenient value kinds out) : Settles kinds value out := by
  obtain ⟨kind, hKind, rfl⟩ := h.eq_of_bit hBit
  cases hBit with
  | boolean b =>
    by_cases hBoolean : kind = .boolean
    · refine Or.inr ⟨?_, (if_pos hBoolean).symm⟩
      rintro other (⟨_, hOther, hNe⟩ | _)
      exact hNe (Option.some.inj (hOther.symm.trans hKind) ▸ hBoolean)
    · rw [if_neg hBoolean]
      exact Or.inl (.toNumber b hKind hBoolean)
  | number hNumber =>
    by_cases hBoolean : kind = .boolean
    · rw [if_pos hBoolean]
      exact Or.inl (.toBoolean (hBoolean ▸ hKind) hNumber)
    · refine Or.inr ⟨?_, (if_neg hBoolean).symm⟩
      rintro other (_ | ⟨hOther, _⟩)
      exact hBoolean (Option.some.inj (hKind.symm.trans hOther))

theorem Fits.eq_of_not_bit {n : Number} (hBit : ∀ b, ¬ n.IsBit b)
    (h : kind.Fits .lenient (.num n) out) : .num n = out := by
  have hBoolean : ∀ b, ¬ (Json.num n).DenotesBoolean .lenient b := by
    rintro b (_ | ⟨_, hOther⟩ | _)
    exact hBit b hOther
  cases h with
  | int hNumber _ | float hNumber | mixedNumber hNumber =>
    rw [hNumber.eq (.number n)]
  | boolean hOther | mixedBoolean _ hOther => exact absurd hOther (hBoolean _)
  | string hText | mixedString _ _ _ hText => cases hText
  | null hNull | mixedNull _ _ hNull => cases hNull

theorem Fits.eq_of_null (h : kind.Fits mode .null out) : .null = out := by
  cases h with
  | int hNumber _ | float hNumber | mixedNumber hNumber => cases hNumber
  | boolean hBoolean | mixedBoolean _ hBoolean => cases hBoolean
  | string hText | mixedString _ _ _ hText => cases hText
  | null _ | mixedNull _ _ _ => rfl

theorem settled_of_not_bit {out : Json} (h : ∀ n b, ¬ out.IsBit n b) : Settled kinds out := by
  rintro other (⟨b, _, _⟩ | ⟨_, hBit⟩)
  · exact h _ _ (.boolean b)
  · exact h _ _ (.number hBit)

/-- In strict mode an output reads as itself. -/
theorem readsAgain_strict (mode : Mode) :
    ReadsAgain mode .strict fun _ out again => out = again := by
  intro kinds value out h
  obtain ⟨kind, hMem, hFits⟩ := h.exists_fits
  obtain ⟨again, hAgain⟩ := exists_fitsFirst ⟨kind, hMem, out, hFits.strict_self⟩
  obtain ⟨_, _, hOther⟩ := hAgain.exists_fits
  exact ⟨again, hAgain, hOther.eq_of_strict⟩

theorem readsAgain_lenient : ReadsAgain .lenient .lenient Settles := by
  intro kinds value out h
  obtain ⟨kind, hMem, hFits⟩ := h.exists_fits
  obtain ⟨again, hAgain⟩ := exists_fitsFirst ⟨kind, hMem, hFits.strict_self.exists_lenient⟩
  refine ⟨again, hAgain, ?_⟩
  by_cases hBit : ∃ n b, out.IsBit n b
  · obtain ⟨n, b, hBit⟩ := hBit
    exact settles_of_bit hBit hAgain
  · refine Or.inr ⟨settled_of_not_bit fun n b hOther => hBit ⟨n, b, hOther⟩, ?_⟩
    obtain ⟨other, _, hOther⟩ := hAgain.exists_fits
    cases out with
    | null => exact hOther.eq_of_null
    | bool b => exact absurd ⟨_, _, .boolean b⟩ hBit
    | num n => exact hOther.eq_of_not_bit fun b hNumber => hBit ⟨n, b, .number hNumber⟩
    | str text =>
      -- A text was the value itself, so it is read just as before.
      obtain rfl := hFits.eq_of_text
      exact h.eq hAgain
    | arr _ | obj _ => cases hFits

theorem Settles.settled (h : Settles kinds out again) : Settled kinds again := by
  rcases h with (⟨b, hKind, hNe⟩ | ⟨hKind, _⟩) | ⟨hSettled, rfl⟩
  · rintro other (_ | ⟨hOther, _⟩)
    exact hNe (Option.some.inj (hKind.symm.trans hOther))
  · rintro other (⟨_, hOther, hNe⟩ | _)
    exact hNe (Option.some.inj (hOther.symm.trans hKind))
  · exact hSettled

theorem Settles.eq (h : Settles kinds out again) (hSettled : Settled kinds out) : out = again := by
  rcases h with hTurns | ⟨_, hEq⟩
  · exact absurd hTurns (hSettled again)
  · exact hEq

theorem Fits.same_self (h : kind.Fits mode value out) : out.same out = true := by
  cases h <;> simp [Json.same, Number.same_self]

theorem Settles.same_iff (hSelf : out.same out = true) (h : Settles kinds out again) :
    out.same again = true ↔ out = again := by
  rcases h with (_ | _) | ⟨_, rfl⟩
  · simp [Json.same]
  · simp [Json.same]
  · simp [hSelf]

/-- In either mode a leaf is read as itself again, unless it is about to turn in lenient mode. -/
theorem readsAgain (mode : Mode) : ReadsAgain mode mode fun kinds out again =>
    (out.same again = true ↔ out = again) ∧ (out = again ↔ mode = .strict ∨ Settled kinds out) := by
  intro kinds value out h
  obtain ⟨_, _, hFits⟩ := h.exists_fits
  cases mode with
  | strict =>
    obtain ⟨again, hAgain, rfl⟩ := readsAgain_strict .strict kinds value out h
    exact ⟨out, hAgain, by simp [hFits.same_self], by simp⟩
  | lenient =>
    obtain ⟨again, hAgain, hSettles⟩ := readsAgain_lenient kinds value out h
    refine ⟨again, hAgain, hSettles.same_iff hFits.same_self, ?_⟩
    constructor
    · rintro rfl
      exact Or.inr hSettles.settled
    · rintro (hMode | hSettled)
      · cases hMode
      · exact hSettles.eq hSettled

end Again

end Kind

namespace Schema

theorem exists_again (schema : Schema) {first : Options} (second : Options)
    {R : Form.LeafRelation} (hReads : Kind.ReadsAgain first.mode second.mode R)
    (hDepth : first.maxDepth = second.maxDepth) {input : Json} {record : Record}
    (h : schema.coerce input first = .accepted record) :
    ∃ again, schema.coerce (.obj record) second = .accepted again ∧
      Form.LeafwiseFields R schema.fields record again := by
  rw [coerce_eq_accepted_iff, walk] at h
  obtain ⟨again, hAgain, hLeaves⟩ := Walk.record_again hDepth
    (Form.exists_againFields hReads hDepth schema.fields schema.distinct.1 schema.distinct.2 1) h
  exact ⟨again, coerce_eq_accepted_iff.mpr hAgain, hLeaves⟩

/-- A schema with one field, on which the orders of kinds can be tried. -/
def bitSchema (kinds : List Kind) : Schema := .ofFields [("bit", .union kinds)]

/-- An accepted record is native data: strict coercion at the same depth returns it unchanged. -/
theorem coerce_strict_of_accepted (schema : Schema) (input : Json) (options : Options)
    (record : Record) (h : schema.coerce input options = .accepted record) :
    schema.coerce (.obj record) { options with mode := .strict } = .accepted record := by
  obtain ⟨again, hAgain, hLeaves⟩ := schema.exists_again { options with mode := .strict }
    (Kind.readsAgain_strict options.mode) rfl h
  rw [hAgain, hLeaves.eq fun _ _ _ hEq => hEq]

-- Boolean comes first and reads the text 1, but not the text 1.0.
theorem coerce_strict_of_accepted_numeral :
    (bitSchema [.boolean, .int]).coerce (.obj [("bit", .str "1.0")]) { mode := .lenient } =
        .accepted [("bit", .num (.int 1 (by decide)))] ∧
      (bitSchema [.boolean, .int]).coerce (.obj [("bit", .num (.int 1 (by decide)))]) {} =
        .accepted [("bit", .num (.int 1 (by decide)))] := by
  have h : (bitSchema [.boolean, .int]).coerce (.obj [("bit", .str "1.0")]) { mode := .lenient } =
      .accepted [("bit", .num (.int 1 (by decide)))] := by decide +kernel
  exact ⟨h, coerce_strict_of_accepted _ _ { mode := .lenient } _ h⟩

/-- The second lenient coercion turns the bits whose leading kind is of the other sort, and the third
changes nothing. -/
theorem lenient_coerce_settles (schema : Schema) (input : Json) (maxDepth : Nat) (record : Record)
    (h : schema.coerce input { mode := .lenient, maxDepth } = .accepted record) :
    ∃ second, schema.coerce (.obj record) { mode := .lenient, maxDepth } = .accepted second ∧
      schema.coerce (.obj second) { mode := .lenient, maxDepth } = .accepted second ∧
      Form.LeafwiseFields Kind.Settles schema.fields record second := by
  obtain ⟨second, hSecond, hLeaves⟩ := schema.exists_again { mode := .lenient, maxDepth }
    Kind.readsAgain_lenient rfl h
  obtain ⟨third, hThird, hNext⟩ := schema.exists_again { mode := .lenient, maxDepth }
    Kind.readsAgain_lenient rfl hSecond
  have hChain : Form.LeafwiseFields (fun _ a b => a = b) schema.fields second third :=
    hLeaves.chain (fun _ _ _ _ hFirst hNext => hNext.eq hFirst.settled) hNext
  obtain rfl := hChain.eq fun _ _ _ hEq => hEq
  exact ⟨second, hSecond, hThird, hLeaves⟩

theorem lenient_coerce_settles_numeral :
    (bitSchema [.boolean, .int]).coerce (.obj [("bit", .str "1.0")]) { mode := .lenient } =
        .accepted [("bit", .num (.int 1 (by decide)))] ∧
      ∃ second, (bitSchema [.boolean, .int]).coerce (.obj [("bit", .num (.int 1 (by decide)))])
          { mode := .lenient } = .accepted second ∧
        (bitSchema [.boolean, .int]).coerce (.obj second) { mode := .lenient } = .accepted second ∧
        Form.LeafwiseFields Kind.Settles (bitSchema [.boolean, .int]).fields
          [("bit", .num (.int 1 (by decide)))] second := by
  have h : (bitSchema [.boolean, .int]).coerce (.obj [("bit", .str "1.0")]) { mode := .lenient } =
      .accepted [("bit", .num (.int 1 (by decide)))] := by decide +kernel
  exact ⟨h, lenient_coerce_settles _ _ _ _ h⟩

/-- The second coercion accepts. It gives an equal record just if it gives the identical one, and that
just if the mode is strict or no leaf is about to turn. -/
theorem coerce_again_eq_iff (schema : Schema) (input : Json) (options : Options) (record : Record)
    (h : schema.coerce input options = .accepted record) :
    ∃ again, schema.coerce (.obj record) options = .accepted again ∧
      (record.same again = true ↔ record = again) ∧
      (record = again ↔ Form.EveryLeaf
        (fun kinds out => options.mode = .strict ∨ Kind.Settled kinds out) schema.fields record) := by
  obtain ⟨again, hAgain, hLeaves⟩ :=
    schema.exists_again options (Kind.readsAgain options.mode) rfl h
  refine ⟨again, hAgain, ?_, (hLeaves.imp fun _ _ _ hLeaf => hLeaf.2).eq_iff_everyLeaf⟩
  have hSame := (Form.Leafwise.nested (.cons hLeaves .nil)).same_iff (fun _ _ _ hLeaf => hLeaf.1)
    schema.distinct
  simpa [Json.same, Json.sameElements, Record.same] using hSame

theorem coerce_again_eq_iff_boolean :
    (bitSchema [.int, .boolean]).coerce (.obj [("bit", .str "true")]) { mode := .lenient } =
        .accepted [("bit", .bool true)] ∧
      ∃ again, (bitSchema [.int, .boolean]).coerce (.obj [("bit", .bool true)])
          { mode := .lenient } = .accepted again ∧
        (Record.same [("bit", .bool true)] again = true ↔ [("bit", .bool true)] = again) ∧
        ([("bit", .bool true)] = again ↔ Form.EveryLeaf
          (fun kinds out => Mode.lenient = .strict ∨ Kind.Settled kinds out)
          (bitSchema [.int, .boolean]).fields [("bit", .bool true)]) := by
  have h : (bitSchema [.int, .boolean]).coerce (.obj [("bit", .str "true")]) { mode := .lenient } =
      .accepted [("bit", .bool true)] := by decide +kernel
  exact ⟨h, coerce_again_eq_iff _ _ _ _ h⟩

/-- Without any mixed a second lenient coercion can still change a record: the text is no number,
but the boolean that it gives is one. -/
theorem coerce_again_ne_union :
    (bitSchema [.int, .boolean]).coerce (.obj [("bit", .str "true")]) { mode := .lenient } =
        .accepted [("bit", .bool true)] ∧
      (bitSchema [.int, .boolean]).coerce (.obj [("bit", .bool true)]) { mode := .lenient } =
        .accepted [("bit", .num (.int 1 (by decide)))] ∧
      Record.same [("bit", .bool true)] [("bit", .num (.int 1 (by decide)))] = false := by
  decide +kernel

end Schema

end Conform
