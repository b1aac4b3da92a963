import Conform.Proofs.Composition
import Conform.Proofs.Failures
import Conform.Proofs.Leafwise
import Conform.Proofs.Pieces

/-! # Lists written as text

In lenient mode a text lists the strings between its separators, and nothing tells it from the list of
these strings: every kind reads the same values from both, or rejects the same index. Only the list of
the empty string alone has no such text. The empty text lists nothing and is rejected itself, and in
strict mode every text is.
-/

set_option autoImplicit false

namespace Conform

namespace Text

/-- What a text can list: at least one string, not the empty one alone, and none with a separator. -/
structure Listable (parts : List String) : Prop where
  nonempty : parts ≠ []
  not_blank : parts ≠ [""]
  free : ∀ part ∈ parts, Json.separator ∉ part.toList

theorem Listable.splits {parts : List String} (h : Listable parts) :
    Splits Json.separator (",".intercalate parts).toList (parts.map String.toList) where
  nonempty := by simpa using h.nonempty
  free := by simpa using h.free
  joined := by
    rw [String.toList_intercalate]
    rfl

theorem Listable.joined_ne_empty {parts : List String} (h : Listable parts) :
    ",".intercalate parts ≠ "" := by
  intro hEmpty
  have hParts := splits_iff.mp h.splits
  rw [hEmpty] at hParts
  -- The empty text has one piece, the empty one.
  obtain ⟨part, rfl, hPart⟩ := List.map_eq_singleton_iff.mp hParts
  exact h.not_blank (by rw [String.toList_eq_nil_iff.mp hPart])

end Text

theorem Json.elements?_joined {parts : List String} (h : Text.Listable parts) :
    (Json.str (",".intercalate parts)).elements? .lenient = some (parts.map Json.str) := by
  rw [elements?, if_pos ⟨rfl, h.joined_ne_empty⟩, ← Text.splits_iff.mp h.splits, List.map_map]
  simp [Function.comp_def]

theorem Json.elements?_strict_text (text : String) : (Json.str text).elements? .strict = none := by
  simp [elements?]

namespace Walk

section Replacing

variable {options : Options} {level : Nat} {fields : List (String × Form)} {name : String} {f : Form}
  {x y : Json} (entries : Record)

/-- A value may be replaced by one that its form makes the same of. -/
theorem fieldsOf_put_congr (hNodup : (Entries.names fields).Nodup) (hField : (name, f) ∈ fields)
    (h : form options f level x = form options f level y) :
    fieldsOf options fields level (Entries.put name x entries) =
      fieldsOf options fields level (Entries.put name y entries) := by
  induction fields with
  | nil => cases hField
  | cons field rest ih =>
    obtain ⟨first, g⟩ := field
    obtain ⟨hFresh, hRestNodup⟩ := List.nodup_cons.mp hNodup
    rcases List.mem_cons.mp hField with hHead | hRest
    · cases hHead
      have hOthers : fieldsOf options rest level (Entries.put name x entries) =
          fieldsOf options rest level (Entries.put name y entries) := by
        apply fieldsOf_congr
        intro other hOther
        have hNe : other ≠ name := fun hEq => hFresh (hEq ▸ hOther)
        rw [Entries.lookup_put, Entries.lookup_put, if_neg hNe, if_neg hNe]
      rw [fieldsOf, fieldsOf, Entries.lookup_put, Entries.lookup_put, if_pos rfl, if_pos rfl]
      dsimp only
      rw [h, hOthers]
    · have hNe : first ≠ name := by
        rintro rfl
        exact hFresh (Entries.mem_names_of_mem hRest)
      rw [fieldsOf, fieldsOf, Entries.lookup_put, Entries.lookup_put, if_neg hNe, if_neg hNe,
        ih hRestNodup hRest]

/-- Where a value is replaced in a record that is read, by one that is not, the reading stops there. -/
theorem fieldsOf_put_error {outs : Record} {stop : Stop} (hNodup : (Entries.names fields).Nodup)
    (hField : (name, f) ∈ fields)
    (hOuts : fieldsOf options fields level (Entries.put name x entries) = .ok outs)
    (h : form options f level y = .error stop) :
    fieldsOf options fields level (Entries.put name y entries) = .error (stop.under name) := by
  induction fields generalizing outs with
  | nil => cases hField
  | cons field rest ih =>
    obtain ⟨first, g⟩ := field
    obtain ⟨hFresh, hRestNodup⟩ := List.nodup_cons.mp hNodup
    rcases List.mem_cons.mp hField with hHead | hRest
    · cases hHead
      rw [fieldsOf, Entries.lookup_put, if_pos rfl]
      dsimp only
      rw [h]
      rfl
    · have hNe : first ≠ name := by
        rintro rfl
        exact hFresh (Entries.mem_names_of_mem hRest)
      rcases fieldsOf_cons_eq_ok_iff.mp hOuts with
        ⟨value, out, tail, hValue, hOut, hTail, _⟩ | ⟨hNone, hOptional, hTail⟩
      · rw [Entries.lookup_put, if_neg hNe] at hValue
        rw [fieldsOf, Entries.lookup_put, if_neg hNe, hValue]
        dsimp only
        rw [hOut, ih hRestNodup hRest hTail]
        rfl
      · rw [Entries.lookup_put, if_neg hNe] at hNone
        rw [fieldsOf, Entries.lookup_put, if_neg hNe, hNone, hOptional]
        exact ih hRestNodup hRest hTail

end Replacing

end Walk

namespace Engine

/-- How strings are read one after the other: all of them, or the first that cannot be read is rejected
under its index. -/
inductive ListRun (kind : Kind) (parts : List String) (state : State) :
    EStateM.Result Failure State Json → Prop
  | accepted {outs : List Json} :
      List.Forall₂ (fun part out => kind.Fits .lenient (.str part) out) parts outs →
      ListRun kind parts state (.ok (.arr outs) state)
  | rejected {front back : List String} {part : String} {depth : Nat} :
      parts = front ++ part :: back →
      (∀ earlier ∈ front, ∃ out, kind.Fits .lenient (.str earlier) out) →
      (∀ out, ¬ kind.Fits .lenient (.str part) out) →
      ListRun kind parts state (.error .rejected
        { state with cursor := { path := state.cursor.path ++ [toString front.length], depth } })

section Lists

variable {α β : Type} {kind : Kind} {part : String}

/-- Either every element of a list has a partner, or there is a first that has none. -/
theorem forall₂_or_first (R : α → β → Prop) (xs : List α) : (∃ ys, List.Forall₂ R xs ys) ∨
    ∃ front x back, xs = front ++ x :: back ∧ (∀ earlier ∈ front, ∃ y, R earlier y) ∧
      ∀ y, ¬ R x y := by
  induction xs with
  | nil => exact Or.inl ⟨[], .nil⟩
  | cons x rest ih =>
    by_cases hHead : ∃ y, R x y
    · rcases ih with ⟨ys, hRest⟩ | ⟨front, other, back, rfl, hFront, hOther⟩
      · obtain ⟨y, hy⟩ := hHead
        exact Or.inl ⟨y :: ys, .cons hy hRest⟩
      · exact Or.inr ⟨x :: front, other, back, rfl, List.forall_mem_cons.mpr ⟨hHead, hFront⟩, hOther⟩
    · exact Or.inr ⟨[], x, rest, rfl, List.forall_mem_nil _, fun y hy => hHead ⟨y, hy⟩⟩

theorem form_list_run {tag : Tag} (h : tag.array = true) (value : Json) (state : State) :
    (form (.scalar tag) value).run state =
      (elements (scalar tag.kind) (value.elements? state.options.mode)).run state := by
  rw [form, if_pos h, list_run]

/-- A string that cannot be read is rejected, since mixed reads every string. -/
theorem read_text_eq_stop (h : ∀ out, ¬ kind.Fits .lenient (.str part) out) :
    Walk.read .lenient [kind] (.str part) = Walk.stop .rejected := by
  have hRead : Kind.readFirst? .lenient (.str part) [kind] = none := by
    rw [Kind.readFirst?_cons, Kind.read?_eq_none_iff.mpr h]
    rfl
  have hMixed : Kind.mixed ∉ [kind] := by
    intro hMem
    obtain rfl := List.mem_singleton.mp hMem
    obtain ⟨out, hOut⟩ := @Kind.exists_fits_mixed_of_scalar .lenient (.str part) rfl
    exact h out hOut
  rw [Walk.read, hRead, Kind.refusal, if_neg hMixed]

theorem texts_run (kind : Kind) (parts : List String) {state : State}
    (hMode : state.options.mode = .lenient) : ListRun kind parts state
      ((elements (scalar kind) (some (parts.map .str))).run state) := by
  have hFollows := elements_follows (scalar_follows kind) (some (parts.map .str)) state
  dsimp only at hFollows
  rw [hMode] at hFollows
  rcases forall₂_or_first (fun part out => kind.Fits .lenient (.str part) out) parts with
    ⟨outs, hOuts⟩ | ⟨front, part, back, rfl, hFront, hPart⟩
  · have hWalk : Walk.elements (Walk.read .lenient [kind]) (some (parts.map .str)) =
        .ok (.arr outs) := by
      refine Walk.elements_eq_ok_iff.mpr ⟨_, outs, rfl, rfl, List.forall₂_map_left_iff.mpr ?_⟩
      simpa only [Walk.read_eq_ok_iff, Kind.fitsFirst_singleton_iff] using hOuts
    rw [hWalk] at hFollows
    rw [show _ = EStateM.Result.ok _ state from hFollows]
    exact .accepted hOuts
  · have hEarlier : ∀ earlier ∈ front.map Json.str, ∃ out,
        Walk.read .lenient [kind] earlier = .ok out := by
      simpa only [List.forall_mem_map, Walk.read_eq_ok_iff, Kind.fitsFirst_singleton_iff]
        using hFront
    have hWalk : Walk.elements (Walk.read .lenient [kind])
        (some ((front ++ part :: back).map .str)) =
          .error { path := [toString front.length], reason := .rejected } := by
      rw [List.map_append, List.map_cons, Walk.elements,
        Walk.elementsFrom_error hEarlier (read_text_eq_stop hPart), List.length_map, Nat.zero_add]
      rfl
    rw [hWalk] at hFollows
    obtain ⟨depth, hRun⟩ := hFollows
    rw [hRun]
    exact .rejected rfl hFront hPart

end Lists

end Engine

namespace Schema

section Lists

variable {schema : Schema} {options : Options} {name : String} {f : Form} {x y : Json}
  {entries record : Record}

theorem coerce_put_congr (hField : (name, f) ∈ schema.fields)
    (h : Walk.form options f 1 x = Walk.form options f 1 y) (entries : Record) :
    schema.coerce (.obj (Entries.put name x entries)) options =
      schema.coerce (.obj (Entries.put name y entries)) options := by
  rw [coerce_eq_outcome, coerce_eq_outcome, walk_obj, walk_obj,
    Walk.fieldsOf_put_congr entries schema.distinct.1 hField h]

theorem coerce_put_rejected (hField : (name, f) ∈ schema.fields)
    (hAccepted : schema.coerce (.obj (Entries.put name x entries)) options = .accepted record)
    (h : Walk.form options f 1 y = Walk.stop .rejected) :
    schema.coerce (.obj (Entries.put name y entries)) options = .rejected [name] := by
  rw [coerce_eq_accepted_iff, walk_obj] at hAccepted
  rw [coerce_eq_outcome, walk_obj,
    Walk.fieldsOf_put_error entries schema.distinct.1 hField hAccepted h]
  rfl

/-- A list of strings and the text that joins them are read alike under every cursor and in every record.
Under a cursor the empty text, and in strict mode any text, is rejected where it stands. So it is in a
record that is accepted with another value in its place. -/
theorem text_lists_as_list (tag : Tag) (hArray : tag.array = true) (limit : Nat) :
    (∀ cursor,
      (∀ parts, Text.Listable parts →
        (Engine.form (.scalar tag) (.str (",".intercalate parts))).run
            { options := { mode := .lenient, maxDepth := limit }, cursor } =
          (Engine.form (.scalar tag) (.arr (parts.map .str))).run
            { options := { mode := .lenient, maxDepth := limit }, cursor } ∧
        Engine.ListRun tag.kind parts { options := { mode := .lenient, maxDepth := limit }, cursor }
          ((Engine.form (.scalar tag) (.arr (parts.map .str))).run
            { options := { mode := .lenient, maxDepth := limit }, cursor })) ∧
      (Engine.form (.scalar tag) (.str "")).run
          { options := { mode := .lenient, maxDepth := limit }, cursor } =
        .error .rejected { options := { mode := .lenient, maxDepth := limit }, cursor } ∧
      ∀ text, (Engine.form (.scalar tag) (.str text)).run
          { options := { mode := .strict, maxDepth := limit }, cursor } =
        .error .rejected { options := { mode := .strict, maxDepth := limit }, cursor }) ∧
    ∀ (schema : Schema) name entries, (name, .scalar tag) ∈ schema.fields →
      (∀ parts, Text.Listable parts →
        schema.coerce (.obj (Entries.put name (.str (",".intercalate parts)) entries))
            { mode := .lenient, maxDepth := limit } =
          schema.coerce (.obj (Entries.put name (.arr (parts.map .str)) entries))
            { mode := .lenient, maxDepth := limit }) ∧
      (∀ other record,
        schema.coerce (.obj (Entries.put name other entries))
          { mode := .lenient, maxDepth := limit } = .accepted record →
        schema.coerce (.obj (Entries.put name (.str "") entries))
          { mode := .lenient, maxDepth := limit } = .rejected [name]) ∧
      ∀ text other record,
        schema.coerce (.obj (Entries.put name other entries))
          { mode := .strict, maxDepth := limit } = .accepted record →
        schema.coerce (.obj (Entries.put name (.str text) entries))
          { mode := .strict, maxDepth := limit } = .rejected [name] := by
  have hWalk : ∀ options level value, Walk.form options (.scalar tag) level value =
      Walk.elements (Walk.read options.mode [tag.kind]) (value.elements? options.mode) := by
    intro options level value
    rw [Walk.form, if_pos hArray]
  refine ⟨fun cursor => ⟨?_, ?_, ?_⟩, fun schema name entries hField => ⟨?_, ?_, ?_⟩⟩
  · intro parts hParts
    rw [Engine.form_list_run hArray, Engine.form_list_run hArray, Json.elements?_joined hParts]
    exact ⟨rfl, Engine.texts_run tag.kind parts rfl⟩
  · rw [Engine.form_list_run hArray]
    rfl
  · intro text
    rw [Engine.form_list_run hArray, Json.elements?_strict_text]
    rfl
  · intro parts hParts
    apply coerce_put_congr hField
    rw [hWalk, hWalk, Json.elements?_joined hParts]
    rfl
  · intro other record hAccepted
    exact coerce_put_rejected hField hAccepted (hWalk _ _ _)
  · intro text other record hAccepted
    apply coerce_put_rejected hField hAccepted
    rw [hWalk, Json.elements?_strict_text]
    rfl

def idListSchema : Schema := .ofFields [("ids", .scalar { kind := .int, array := true })]

-- The empty string between two separators is an element, and no integer.
theorem text_lists_as_list_ids :
    Text.Listable ["1", "", "3"] ∧
    idListSchema.coerce (.obj [("ids", .str "1,,3")]) { mode := .lenient } =
      idListSchema.coerce (.obj [("ids", .arr [.str "1", .str "", .str "3"])]) { mode := .lenient } ∧
    idListSchema.coerce (.obj [("ids", .str "1,,3")]) { mode := .lenient } = .rejected ["ids", "1"] ∧
    idListSchema.coerce (.obj [("ids", .arr [])]) { mode := .lenient } = .accepted [("ids", .arr [])] ∧
    idListSchema.coerce (.obj [("ids", .str "")]) { mode := .lenient } = .rejected ["ids"] ∧
    idListSchema.coerce (.obj [("ids", .arr [])]) {} = .accepted [("ids", .arr [])] ∧
    idListSchema.coerce (.obj [("ids", .str "1,2")]) {} = .rejected ["ids"] := by
  have hParts : Text.Listable ["1", "", "3"] := ⟨by decide, by decide, by decide +kernel⟩
  have hField : ("ids", Form.scalar { kind := .int, array := true }) ∈ idListSchema.fields := by
    decide +kernel
  have hJoined : ",".intercalate ["1", "", "3"] = "1,,3" := by decide +kernel
  have hLenient : idListSchema.coerce (.obj [("ids", .arr [])]) { mode := .lenient } =
      .accepted [("ids", .arr [])] := by decide +kernel
  have hStrict : idListSchema.coerce (.obj [("ids", .arr [])]) {} =
      .accepted [("ids", .arr [])] := by decide +kernel
  obtain ⟨hSame, hEmpty, hText⟩ :=
    (text_lists_as_list { kind := .int, array := true } rfl 0).2 idListSchema "ids" [] hField
  have hEqual := hSame _ hParts
  rw [hJoined] at hEqual
  exact ⟨hParts, hEqual, hEqual.trans (by decide +kernel), hLenient, hEmpty _ _ hLenient, hStrict,
    hText "1,2" _ _ hStrict⟩

end Lists

end Schema

end Conform
