import Conform.Proofs.Outputs
import Conform.Typed

/-! # Typed outputs

An accepted record has the shape of its schema, so little is left that a typed value could miss. Strings
and booleans are what their types ask for, and absent fields are optional. Only an integer may come as a
double, or lie beyond the integers of 64 signed bits.
-/

set_option autoImplicit false

namespace Conform

section Lists

variable {α β γ : Type} {S : α → β → Prop} {R : α → γ → Prop} {f : γ → β}

theorem exists_map_of_forall₂ (hOut : ∀ x y, S x y → ∃ z, y = f z ∧ R x z) {xs : List α} {ys : List β}
    (h : List.Forall₂ S xs ys) : ∃ zs, ys = zs.map f ∧ List.Forall₂ R xs zs := by
  induction h with
  | nil => exact ⟨[], rfl, .nil⟩
  | cons hHead _ ih =>
    obtain ⟨z, rfl, hz⟩ := hOut _ _ hHead
    obtain ⟨zs, rfl, hzs⟩ := ih
    exact ⟨z :: zs, rfl, .cons hz hzs⟩

theorem exists_map_of_rel (hOut : ∀ x y, S x y → ∃ z, y = f z ∧ R x z) {x : Option α} {y : Option β}
    (h : Option.Rel S x y) : ∃ z, y = z.map f ∧ Option.Rel R x z := by
  cases h with
  | none => exact ⟨none, rfl, .none⟩
  | some hSome =>
    obtain ⟨z, rfl, hz⟩ := hOut _ _ hSome
    exact ⟨some z, rfl, .some hz⟩

theorem eq_map_of_rel {x : Option β} {z : Option γ} (h : Option.Rel (fun y z => y = f z) x z) :
    x = z.map f := by
  cases h with
  | none => rfl
  | some hSome => rw [hSome, Option.map_some]

end Lists

namespace Number

/-- The integer of 64 signed bits that a number is. No double is one, whatever its value. -/
def Is (n : Number) (value : Int64) : Prop :=
  ∃ inRange, n = .int value.toInt inRange

/-- A double, or an integer beyond 64 signed bits. -/
def OutsideInt64 : Number → Prop
  | .int value _ => ¬ (-0x8000000000000000 ≤ value ∧ value < 0x8000000000000000)
  | .float _ => True

end Number

namespace Json

theorem toInt64?_eq_some_iff {n : Number} {value : Int64} :
    (num n).toInt64? = some value ↔ n.Is value := by
  cases n with
  | int m inRange =>
    rw [toInt64?, Number.Is]
    have hUpper : value.toInt < 0x8000000000000000 := value.toInt_lt
    constructor
    · intro h
      split at h
      · rename_i hm
        obtain rfl := Option.some.inj h
        have hValue : (Int64.ofInt m).toInt = m := Int64.toInt_ofInt_of_le inRange.1 hm
        exact ⟨hValue.symm ▸ inRange, by simp only [hValue]⟩
      · cases h
    · rintro ⟨_, h⟩
      cases h
      rw [if_pos hUpper, Int64.ofInt_toInt]
  | float x => simp [toInt64?, Number.Is]

theorem toInt64?_eq_none_iff {n : Number} : (num n).toInt64? = none ↔ n.OutsideInt64 := by
  cases n with
  | int m inRange =>
    rw [toInt64?, Number.OutsideInt64, ite_eq_right_iff]
    simp [inRange.1]
  | float x => exact iff_of_true rfl trivial

end Json

/-- What an accepted item holds. -/
structure ItemData where
  id : Number
  label : Option String

namespace ItemData

def toJson (data : ItemData) : Json :=
  .obj (("id", .num data.id) :: (data.label.map fun text => ("label", Json.str text)).toList)

/-- What is accepted from an element. Only an element without a label has none. -/
def OfElement (mode : Mode) (element : Json) (data : ItemData) : Prop :=
  ∃ entries id, element = .obj entries ∧ entries.lookup "id" = some id ∧
    Kind.int.Fits mode id (.num data.id) ∧ entries.lookup "label" = data.label.map .str

/-- The item of the same id and label. -/
def Gives (data : ItemData) (item : Item) : Prop :=
  data.id.Is item.id ∧ item.label = data.label

theorem ofJson?_toJson (data : ItemData) : Item.ofJson? data.toJson =
    (Json.num data.id).toInt64?.map fun id => { id, label := data.label } := by
  obtain ⟨id, label⟩ := data
  cases label <;> cases h : (Json.num id).toInt64? <;>
    simp [toJson, Item.ofJson?, Item.ofRecord?, Json.toRecord?, Record.required?,
      Record.optional?, Json.toString?, List.lookup_cons, h]

theorem ofJson?_eq_some_iff {data : ItemData} {item : Item} :
    Item.ofJson? data.toJson = some item ↔ data.Gives item := by
  rw [ofJson?_toJson, Option.map_eq_some_iff, Gives]
  simp only [Json.toInt64?_eq_some_iff]
  constructor
  · rintro ⟨id, hId, rfl⟩
    exact ⟨hId, rfl⟩
  · rintro ⟨hId, hLabel⟩
    exact ⟨item.id, hId, by rw [← hLabel]⟩

theorem ofJson?_eq_none_iff {data : ItemData} :
    Item.ofJson? data.toJson = none ↔ data.id.OutsideInt64 := by
  rw [ofJson?_toJson, Option.map_eq_none_iff, Json.toInt64?_eq_none_iff]

end ItemData

/-- What an accepted query holds. -/
structure QueryData where
  page : Number
  tags : List String
  debug : Option Bool

namespace QueryData

def toRecord (data : QueryData) : Record :=
  ("page", .num data.page) :: ("tags", .arr (data.tags.map .str)) ::
    (data.debug.map fun b => ("debug", Json.bool b)).toList

def OfEntries (mode : Mode) (entries : Record) (data : QueryData) : Prop :=
  ∃ page tags, entries.lookup "page" = some page ∧ Kind.int.Fits mode page (.num data.page) ∧
    entries.lookup "tags" = some tags ∧ tags.elements? mode = some (data.tags.map .str) ∧
    Option.Rel (fun value b => Kind.boolean.Fits mode value (.bool b)) (entries.lookup "debug")
      data.debug

def Gives (data : QueryData) (query : Query) : Prop :=
  data.page.Is query.page ∧ query.tags = data.tags ∧ query.debug = data.debug

theorem ofRecord?_toRecord (data : QueryData) : Query.ofRecord? data.toRecord =
    (Json.num data.page).toInt64?.map fun page => { page, tags := data.tags, debug := data.debug } := by
  obtain ⟨page, tags, debug⟩ := data
  have hTags : (tags.map Json.str).mapM Json.toString? = some tags :=
    mapM_eq_some_iff.mpr (List.forall₂_map_left_iff.mpr (List.forall₂_same.mpr fun _ _ => rfl))
  cases debug <;> cases h : (Json.num page).toInt64? <;>
    simp [toRecord, Query.ofRecord?, Record.required?, Record.optional?, Json.toElements?,
      Json.toBool?, List.lookup_cons, h, hTags]

theorem ofRecord?_eq_some_iff {data : QueryData} {query : Query} :
    Query.ofRecord? data.toRecord = some query ↔ data.Gives query := by
  rw [ofRecord?_toRecord, Option.map_eq_some_iff, Gives]
  simp only [Json.toInt64?_eq_some_iff]
  constructor
  · rintro ⟨page, hPage, rfl⟩
    exact ⟨hPage, rfl, rfl⟩
  · rintro ⟨hPage, hTags, hDebug⟩
    exact ⟨query.page, hPage, by rw [← hTags, ← hDebug]⟩

theorem ofRecord?_eq_none_iff {data : QueryData} :
    Query.ofRecord? data.toRecord = none ↔ data.page.OutsideInt64 := by
  rw [ofRecord?_toRecord, Option.map_eq_none_iff, Json.toInt64?_eq_none_iff]

end QueryData

namespace Order

def recordOf (rows : List ItemData) : Record := [("items", .arr (rows.map ItemData.toJson))]

theorem ofRecord?_recordOf (rows : List ItemData) :
    ofRecord? (recordOf rows) = (rows.mapM fun row => Item.ofJson? row.toJson).map mk := by
  simp [recordOf, ofRecord?, Record.required?, Json.toElements?, List.mapM_map,
    Function.comp_def, Option.map_eq_bind]

theorem ofRecord?_eq_some_iff {rows : List ItemData} {order : Order} :
    ofRecord? (recordOf rows) = some order ↔ List.Forall₂ ItemData.Gives rows order.items := by
  obtain ⟨items⟩ := order
  rw [ofRecord?_recordOf, Option.map_eq_some_iff]
  simp only [mapM_eq_some_iff, ItemData.ofJson?_eq_some_iff, mk.injEq, exists_eq_right]

theorem ofRecord?_eq_none_iff {rows : List ItemData} :
    ofRecord? (recordOf rows) = none ↔ ∃ row ∈ rows, row.id.OutsideInt64 := by
  rw [ofRecord?_recordOf, Option.map_eq_none_iff, mapM_eq_none_iff]
  simp only [ItemData.ofJson?_eq_none_iff]

end Order

namespace Outcome

variable {α : Type} {ofRecord? : Record → Option α} {record : Record}

theorem exists_toTyped_eq_ok (h : ofRecord? record ≠ none) :
    ∃ value, (accepted record).toTyped ofRecord? = .ok value ∧ ofRecord? record = some value := by
  obtain ⟨value, hValue⟩ := Option.ne_none_iff_exists'.mp h
  exact ⟨value, by rw [toTyped, hValue], hValue⟩

theorem toTyped_eq_mismatch_iff :
    (accepted record).toTyped ofRecord? = .error .mismatch ↔ ofRecord? record = none := by
  rw [toTyped]
  cases ofRecord? record <;> simp

end Outcome

section Shapes

variable {mode : Mode} {value out : Json}

theorem Kind.Fits.exists_number (h : Kind.int.Fits mode value out) :
    ∃ n, out = .num n ∧ Kind.int.Fits mode value (.num n) := by
  cases h with
  | int hn hWhole => exact ⟨_, rfl, .int hn hWhole⟩

theorem Kind.Fits.exists_boolean (h : Kind.boolean.Fits mode value out) :
    ∃ b, out = .bool b ∧ Kind.boolean.Fits mode value (.bool b) := by
  cases h with
  | boolean hb => exact ⟨_, rfl, .boolean hb⟩

theorem Kind.Fits.exists_text (h : Kind.string.Fits mode value out) :
    ∃ text, out = .str text ∧ value = .str text := by
  cases h with
  | string hText => exact ⟨_, rfl, hText⟩

theorem Form.Fits.exists_texts
    (h : Form.Fits mode (.scalar { kind := .string, array := true }) value out) :
    ∃ texts : List String, value.elements? mode = some (texts.map .str) ∧
      out = .arr (texts.map .str) := by
  obtain ⟨elements, outs, hElements, rfl, hOuts⟩ := (fits_list_iff rfl).mp h
  obtain ⟨texts, rfl, hTexts⟩ := exists_map_of_forall₂ (fun _ _ hFits => hFits.exists_text) hOuts
  rw [← List.forall₂_map_right_iff, List.forall₂_eq_eq_eq] at hTexts
  exact ⟨texts, hTexts ▸ hElements, rfl⟩

end Shapes

namespace Form

section Fields

variable {mode : Mode} {name : String} {form : Form} {rest : List (String × Form)}
  {entries outs : Record}

theorem FitsFields.head_of_required (h : FitsFields mode ((name, form) :: rest) entries outs)
    (hRequired : form.isOptional = false) :
    ∃ value out tail, entries.lookup name = some value ∧ Fits mode form value out ∧
      outs = (name, out) :: tail ∧ FitsFields mode rest entries tail := by
  cases h with
  | present hValue hFits hRest => exact ⟨_, _, _, hValue, hFits, rfl, hRest⟩
  | absent _ hOptional _ => exact absurd hOptional (by simp [hRequired])

theorem FitsFields.last (h : FitsFields mode [(name, form)] entries outs) :
    ∃ out : Option Json, outs = (out.map fun out => (name, out)).toList ∧
      Option.Rel (Fits mode form) (entries.lookup name) out := by
  cases h with
  | present hValue hFits hRest =>
    cases hRest
    exact ⟨some _, rfl, by rw [hValue]; exact .some hFits⟩
  | absent hNone _ hRest =>
    cases hRest
    exact ⟨none, rfl, by rw [hNone]; exact .none⟩

end Fields

end Form

def itemFields : List (String × Form) :=
  [("id", .scalar { kind := .int }), ("label", .scalar { kind := .string, optional := true })]

def orderSchema : Schema := .ofFields [("items", .nested itemFields)]

def querySchema : Schema := .ofFields
  [("page", .scalar { kind := .int }), ("tags", .scalar { kind := .string, array := true }),
    ("debug", .scalar { kind := .boolean, optional := true })]

section Shapes

variable {mode : Mode} {entries outs : Record} {input : Json} {record : Record}

theorem ItemData.exists_of_fits (h : Form.FitsFields mode itemFields entries outs) :
    ∃ data : ItemData, Json.obj outs = data.toJson ∧ OfElement mode (.obj entries) data := by
  obtain ⟨id, _, _, hId, hIdFits, rfl, hRest⟩ := h.head_of_required rfl
  obtain ⟨label, rfl, hLabel⟩ := hRest.last
  obtain ⟨n, rfl, hn⟩ := (hIdFits.kind_fits rfl).exists_number
  obtain ⟨text, rfl, hText⟩ := exists_map_of_rel (fun _ _ hFits => (hFits.kind_fits rfl).exists_text)
    hLabel
  refine ⟨{ id := n, label := text }, ?_, entries, id, rfl, hId, hn, eq_map_of_rel hText⟩
  rw [toJson, Option.map_map]
  rfl

theorem orderSchema_fits (h : orderSchema.Fits mode input record) :
    ∃ entries elements rows, input = .obj entries ∧ entries.lookup "items" = some (.arr elements) ∧
      List.Forall₂ (ItemData.OfElement mode) elements rows ∧ record = Order.recordOf rows := by
  obtain ⟨entries, rfl, hFields⟩ := h
  obtain ⟨_, _, _, hItems, hFits, rfl, hRest⟩ := hFields.head_of_required rfl
  cases hRest
  cases hFits with
  | nested hOuts =>
    have hRow : ∀ element out, (∃ entries record, element = .obj entries ∧ out = .obj record ∧
        Form.FitsFields mode itemFields entries record) →
        ∃ row : ItemData, out = row.toJson ∧ row.OfElement mode element := by
      rintro element out ⟨entries, record, rfl, rfl, hFields⟩
      exact ItemData.exists_of_fits hFields
    obtain ⟨rows, rfl, hRows⟩ := exists_map_of_forall₂ hRow (Form.fitsItems_iff.mp hOuts)
    exact ⟨entries, _, rows, rfl, hItems, hRows, rfl⟩

theorem querySchema_fits (h : querySchema.Fits mode input record) :
    ∃ entries data, input = .obj entries ∧ QueryData.OfEntries mode entries data ∧
      record = data.toRecord := by
  obtain ⟨entries, rfl, hFields⟩ := h
  obtain ⟨page, _, _, hPage, hPageFits, rfl, hRest⟩ := hFields.head_of_required rfl
  obtain ⟨tags, _, _, hTags, hTagsFits, rfl, hLast⟩ := hRest.head_of_required rfl
  obtain ⟨debug, rfl, hDebug⟩ := hLast.last
  obtain ⟨n, rfl, hn⟩ := (hPageFits.kind_fits rfl).exists_number
  obtain ⟨texts, hTexts, rfl⟩ := hTagsFits.exists_texts
  obtain ⟨b, rfl, hb⟩ := exists_map_of_rel (fun _ _ hFits => (hFits.kind_fits rfl).exists_boolean)
    hDebug
  refine ⟨entries, { page := n, tags := texts, debug := b }, rfl,
    ⟨page, tags, hPage, hn, hTags, hTexts, hb⟩, ?_⟩
  rw [QueryData.toRecord, Option.map_map]
  rfl

end Shapes

namespace Schema

/-- An accepted order or query is of its type as soon as its integers are of 64 signed bits. -/
theorem toTyped_of_accepted :
    (∀ (input : Json) (options : Options) (record : Record),
      orderSchema.coerce input options = .accepted record →
      ∃ entries elements rows, input = .obj entries ∧
        entries.lookup "items" = some (.arr elements) ∧
        List.Forall₂ (ItemData.OfElement options.mode) elements rows ∧
        record = Order.recordOf rows ∧
        ((orderSchema.coerce input options).toTyped Order.ofRecord? = .error .mismatch ↔
          ∃ row ∈ rows, row.id.OutsideInt64) ∧
        ((∀ row ∈ rows, ¬ row.id.OutsideInt64) →
          ∃ order, (orderSchema.coerce input options).toTyped Order.ofRecord? = .ok order ∧
            List.Forall₂ ItemData.Gives rows order.items)) ∧
    (∀ (input : Json) (options : Options) (record : Record),
      querySchema.coerce input options = .accepted record →
      ∃ entries data, input = .obj entries ∧ QueryData.OfEntries options.mode entries data ∧
        record = data.toRecord ∧
        ((querySchema.coerce input options).toTyped Query.ofRecord? = .error .mismatch ↔
          data.page.OutsideInt64) ∧
        (¬ data.page.OutsideInt64 →
          ∃ query, (querySchema.coerce input options).toTyped Query.ofRecord? = .ok query ∧
            data.Gives query)) := by
  constructor
  · intro input options record hAccepted
    obtain ⟨entries, elements, rows, hInput, hItems, hRows, rfl⟩ :=
      orderSchema_fits (fits_of_accepted hAccepted)
    refine ⟨entries, elements, rows, hInput, hItems, hRows, rfl, ?_, fun hInside => ?_⟩
    · rw [hAccepted, Outcome.toTyped_eq_mismatch_iff, Order.ofRecord?_eq_none_iff]
    · have hTyped : Order.ofRecord? (Order.recordOf rows) ≠ none := by
        rw [Ne, Order.ofRecord?_eq_none_iff]
        rintro ⟨row, hRow, hOutside⟩
        exact hInside row hRow hOutside
      obtain ⟨order, hOk, hOrder⟩ := Outcome.exists_toTyped_eq_ok hTyped
      exact ⟨order, by rw [hAccepted, hOk], Order.ofRecord?_eq_some_iff.mp hOrder⟩
  · intro input options record hAccepted
    obtain ⟨entries, data, hInput, hData, rfl⟩ := querySchema_fits (fits_of_accepted hAccepted)
    refine ⟨entries, data, hInput, hData, rfl, ?_, fun hInside => ?_⟩
    · rw [hAccepted, Outcome.toTyped_eq_mismatch_iff, QueryData.ofRecord?_eq_none_iff]
    · have hTyped : Query.ofRecord? data.toRecord ≠ none := by
        rwa [Ne, QueryData.ofRecord?_eq_none_iff]
      obtain ⟨query, hOk, hQuery⟩ := Outcome.exists_toTyped_eq_ok hTyped
      exact ⟨query, by rw [hAccepted, hOk], QueryData.ofRecord?_eq_some_iff.mp hQuery⟩

def wideItems : List Json :=
  [.obj [("id", .str " 0x10")],
    .obj [("label", .str "two"), ("id", .num (.int 0x8000000000000000 (by decide)))]]

def thirdPage : Json := .obj [("tags", .str "new,sale"), ("page", .str "3")]

-- Two to the power 63 is an integer in data, but not one of 64 signed bits.
theorem toTyped_of_accepted_wide :
    (∃ rows, List.Forall₂ (ItemData.OfElement .lenient) wideItems rows ∧
      ∃ row ∈ rows, row.id.OutsideInt64) ∧
    ∃ (data : QueryData) (query : Query),
      querySchema.coerce thirdPage { mode := .lenient } = .accepted data.toRecord ∧
        (querySchema.coerce thirdPage { mode := .lenient }).toTyped Query.ofRecord? = .ok query ∧
          data.Gives query := by
  constructor
  · obtain ⟨_, _, rows, hInput, hItems, hRows, _, hTyped, _⟩ := toTyped_of_accepted.1
      (.obj [("items", .arr wideItems)]) { mode := .lenient }
      [("items", .arr [.obj [("id", .num (.int 16 (by decide)))],
        .obj [("id", .num (.int 0x8000000000000000 (by decide))), ("label", .str "two")]])]
      (by decide +kernel)
    cases hInput
    cases hItems
    exact ⟨rows, hRows, hTyped.mp (by decide +kernel)⟩
  · have hAccepted : querySchema.coerce thirdPage { mode := .lenient } =
        .accepted [("page", .num (.int 3 (by decide))), ("tags", .arr [.str "new", .str "sale"])] := by
      decide +kernel
    obtain ⟨_, data, _, _, hRecord, hTyped, hQuery⟩ := toTyped_of_accepted.2 _ _ _ hAccepted
    have hInside : ¬ data.page.OutsideInt64 := by
      rw [← hTyped]
      decide +kernel
    obtain ⟨query, hOk, hGives⟩ := hQuery hInside
    exact ⟨data, query, hRecord ▸ hAccepted, hOk, hGives⟩

end Schema

end Conform
