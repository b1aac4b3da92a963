import Conform.Schema.Tag
import Mathlib.Logic.Function.Basic

/-! # The texts of tags

Every tag has one text, and no other text is read as that tag. A text that is read as a tag is the name
of its kind, with `[]` and `?` after it where the tag has them. To append `[]` or `?` to any text adds
to what is read from it, or the longer text is no tag: `[]` comes once and behind the bare name of a
kind, `?` once and last.
-/

set_option autoImplicit false

namespace Conform

namespace Kind

variable {text : String} {kind : Kind} {c : Char}

theorem parse?_text (kind : Kind) : parse? kind.text = some kind := by
  cases kind <;> rfl

theorem parse?_eq_some_iff : parse? text = some kind ↔ text = kind.text := by
  constructor
  · intro h
    unfold parse? at h
    split at h <;> cases h <;> rfl
  · rintro rfl
    exact parse?_text kind

theorem text_injective : Function.Injective Kind.text := by
  intro kind other h
  have hParse := parse?_eq_some_iff.mpr h
  rw [parse?_text] at hParse
  exact Option.some.inj hParse

theorem isLower_of_mem_text (h : c ∈ kind.text.toList) : c.isLower = true := by
  have hAll : kind.text.toList.all Char.isLower = true := by cases kind <;> decide
  exact List.all_eq_true.mp hAll c h

theorem not_mem_text (h : c.isLower = false) : c ∉ kind.text.toList := by
  intro hMem
  rw [isLower_of_mem_text hMem] at h
  cases h

end Kind

namespace Tag

variable {text : String} {tag : Tag} {c : Char}

section Endings

variable {ending text : List Char}

theorem stripEnd_eq {rest : List Char} {found : Bool} (h : stripEnd ending text = (rest, found)) :
    text = rest ++ if found then ending else [] := by
  rw [stripEnd] at h
  split at h
  · rename_i hSuffix
    cases h
    exact (List.suffix_iff_eq_append.mp (List.isSuffixOf_iff_suffix.mp hSuffix)).symm
  · cases h
    exact (List.append_nil text).symm

theorem stripEnd_append (ending text : List Char) :
    stripEnd ending (text ++ ending) = (text, true) := by
  rw [stripEnd, if_pos (List.isSuffixOf_iff_suffix.mpr (List.suffix_append text ending))]
  simp

theorem stripEnd_of_not_mem (hc : c ∈ ending) (h : c ∉ text) :
    stripEnd ending text = (text, false) := by
  rw [stripEnd, if_neg]
  intro hSuffix
  exact h ((List.isSuffixOf_iff_suffix.mp hSuffix).subset hc)

end Endings

theorem text_plain (kind : Kind) : Tag.text { kind } = kind.text := by
  simp [Tag.text]

theorem text_array (kind : Kind) : Tag.text { kind, array := true } = kind.text ++ "[]" := by
  simp [Tag.text]

theorem text_optional (kind : Kind) (array : Bool) :
    Tag.text { kind, array, optional := true } = Tag.text { kind, array } ++ "?" := by
  simp [Tag.text]

/-- The texts of tags have lower-case letters in them and what the endings are made of. -/
theorem isLower_or_mem_of_mem_text (h : c ∈ tag.text.toList) :
    c.isLower = true ∨ c ∈ ['[', ']', '?'] := by
  obtain ⟨kind, array, optional⟩ := tag
  simp only [Tag.text, String.toList_append, List.mem_append] at h
  rcases h with (hName | hBrackets) | hMark
  · exact Or.inl (Kind.isLower_of_mem_text hName)
  · have hEnding : c ∈ ['[', ']'] := by cases array <;> simp_all
    exact Or.inr (List.mem_append_left ['?'] hEnding)
  · have hEnding : c ∈ ['?'] := by cases optional <;> simp_all
    exact Or.inr (List.mem_append_right ['[', ']'] hEnding)

theorem mark_not_mem_text (kind : Kind) (array : Bool) : '?' ∉ (Tag.text { kind, array }).toList := by
  have hName : '?' ∉ kind.text.toList := Kind.not_mem_text (by decide)
  cases array with
  | false => rwa [text_plain]
  | true => simp [text_array, hName]

-- Each ending is stripped where the tag has it. Where it has not, the endings cannot be mistaken for a
-- part of the name, which has only letters.
theorem parse?_text (tag : Tag) : parse? tag.text = some tag := by
  obtain ⟨kind, array, optional⟩ := tag
  have hOptional : stripEnd ['?'] (Tag.text { kind, array, optional }).toList =
      ((Tag.text { kind, array }).toList, optional) := by
    cases optional with
    | false => exact stripEnd_of_not_mem (List.mem_singleton_self _) (mark_not_mem_text kind array)
    | true =>
      rw [text_optional, String.toList_append]
      exact stripEnd_append _ _
  have hArray : stripEnd ['[', ']'] (Tag.text { kind, array }).toList =
      (kind.text.toList, array) := by
    cases array with
    | false =>
      rw [text_plain]
      exact stripEnd_of_not_mem (c := ']') (by decide) (Kind.not_mem_text (by decide))
    | true =>
      rw [text_array, String.toList_append]
      exact stripEnd_append _ _
  simp only [parse?, hOptional, hArray, String.ofList_toList, Kind.parse?_text, Option.map_some]

theorem text_of_parse? (h : parse? text = some tag) : tag.text = text := by
  rcases hOptional : stripEnd ['?'] text.toList with ⟨marked, optional⟩
  rcases hArray : stripEnd ['[', ']'] marked with ⟨name, array⟩
  simp only [parse?, hOptional, hArray] at h
  obtain ⟨kind, hKind, rfl⟩ := Option.map_eq_some_iff.mp h
  rw [Kind.parse?_eq_some_iff] at hKind
  apply String.toList_injective
  rw [stripEnd_eq hOptional, stripEnd_eq hArray, ← String.toList_ofList (l := name), hKind]
  cases array <;> cases optional <;> simp [Tag.text]

theorem parse?_eq_some_iff : parse? text = some tag ↔ text = tag.text := by
  constructor
  · exact fun h => (text_of_parse? h).symm
  · rintro rfl
    exact parse?_text tag

/-- The name of a kind is a tag with nothing more to it. -/
theorem parse?_kind (kind : Kind) : parse? kind.text = some { kind } := by
  rw [parse?_eq_some_iff, text_plain]

theorem text_injective : Function.Injective Tag.text := by
  intro tag other h
  have hParse := parse?_text tag
  rw [h, parse?_text] at hParse
  exact (Option.some.inj hParse).symm

/-- What an ending does to a text is what it does to the tag, if it is the end of the tags that are
extended and of no others. -/
theorem parse?_append {ending : String} {takes : Tag → Bool} {extend : Tag → Tag}
    (hText : ∀ base, takes base = true → (extend base).text = base.text ++ ending)
    (hBase : ∀ tag text, text ++ ending = tag.text → ∃ base, takes base = true ∧ extend base = tag)
    (text : String) : parse? (text ++ ending) = ((parse? text).filter takes).map extend := by
  apply Option.ext
  intro tag
  rw [parse?_eq_some_iff, Option.map_eq_some_iff]
  simp only [Option.filter_eq_some_iff, parse?_eq_some_iff]
  constructor
  · intro h
    obtain ⟨base, hTakes, rfl⟩ := hBase tag text h
    rw [hText base hTakes, String.append_left_inj] at h
    exact ⟨base, ⟨h, hTakes⟩, rfl⟩
  · rintro ⟨base, ⟨rfl, hTakes⟩, rfl⟩
    exact (hText base hTakes).symm

/-- Brackets follow the bare name of a kind and nothing else. -/
theorem parse?_append_brackets (text : String) : parse? (text ++ "[]") =
    ((parse? text).filter isPlain).map fun tag => { tag with array := true } := by
  apply parse?_append
  · rintro ⟨kind, array, optional⟩ hPlain
    obtain ⟨rfl, rfl⟩ : array = false ∧ optional = false := by simpa [isPlain] using hPlain
    rw [text_plain, text_array]
  · rintro ⟨kind, array, optional⟩ text h
    cases optional with
    | true =>
      have hLast := congrArg (fun s => s.toList.getLast?) h
      simp [text_optional] at hLast
    | false =>
      cases array with
      | false =>
        have hBracket : ']' ∈ kind.text.toList := by
          rw [← text_plain, ← h]
          simp
        exact absurd hBracket (Kind.not_mem_text (by decide))
      | true => exact ⟨{ kind }, rfl, rfl⟩

/-- A mark follows every tag that has none yet. -/
theorem parse?_append_mark (text : String) : parse? (text ++ "?") =
    ((parse? text).filter fun tag => !tag.optional).map fun tag => { tag with optional := true } := by
  apply parse?_append
  · rintro ⟨kind, array, optional⟩ hRequired
    obtain rfl : optional = false := by simpa using hRequired
    rw [text_optional]
  · rintro ⟨kind, array, optional⟩ text h
    cases optional with
    | false =>
      have hMark : '?' ∈ (Tag.text { kind, array }).toList := by
        rw [← h]
        simp
      exact absurd hMark (mark_not_mem_text kind array)
    | true => exact ⟨{ kind, array }, rfl, rfl⟩

theorem parse?_eq_none_of_mem (hc : c ∈ text.toList) (hLower : c.isLower = false)
    (hEnding : c ∉ ['[', ']', '?']) : parse? text = none := by
  rw [Option.eq_none_iff_forall_ne_some]
  intro tag h
  rw [← text_of_parse? h] at hc
  rcases isLower_or_mem_of_mem_text hc with hLetter | hMem
  · rw [hLetter] at hLower
    cases hLower
  · exact hEnding hMem

/-- Reading and writing are inverse to each other, and nothing else is read: no ending twice or in
another place, and no character but the letters of names and those of the endings. -/
theorem parse_eq_some_iff_text (text : String) :
    (∀ kind, Kind.parse? text = some kind ↔ text = kind.text) ∧
    (∀ tag, parse? text = some tag ↔ text = tag.text) ∧
    (∀ tag other : Tag, tag.text = other.text ↔ tag = other) ∧
    parse? (text ++ "[]") =
      ((parse? text).filter isPlain).map (fun tag => { tag with array := true }) ∧
    parse? (text ++ "?") =
      ((parse? text).filter fun tag => !tag.optional).map (fun tag => { tag with optional := true }) ∧
    (∀ c ∈ text.toList, c.isLower = false → c ∉ ['[', ']', '?'] → parse? text = none) :=
  ⟨fun _ => Kind.parse?_eq_some_iff, fun _ => parse?_eq_some_iff,
    fun _ _ => text_injective.eq_iff, parse?_append_brackets text, parse?_append_mark text,
    fun _ => parse?_eq_none_of_mem⟩

-- A mark before the brackets, a mark twice, and a capital.
theorem parse_eq_some_iff_text_swapped :
    parse? "int?" = some { kind := .int, optional := true } ∧
    parse? ("int?" ++ "[]") = none ∧ parse? ("int?" ++ "?") = none ∧
    'I' ∈ "Int".toList ∧ 'I'.isLower = false ∧ 'I' ∉ ['[', ']', '?'] ∧ parse? "Int" = none := by
  obtain ⟨-, hRead, -, hBrackets, hMark, -⟩ := parse_eq_some_iff_text "int?"
  have hOptional := (hRead { kind := .int, optional := true }).mpr (by decide)
  rw [hOptional] at hBrackets hMark
  obtain ⟨-, -, -, -, -, hOther⟩ := parse_eq_some_iff_text "Int"
  exact ⟨hOptional, hBrackets, hMark, by decide, by decide, by decide,
    hOther 'I' (by decide) (by decide) (by decide)⟩

end Tag

end Conform
