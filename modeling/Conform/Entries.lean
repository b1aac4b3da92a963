/-! # Ordered entries

Named entries in the order in which their names first arrived. A name that is put again keeps its
place and takes the new value, so lists built by `put` never hold a name twice.
-/

set_option autoImplicit false

namespace Conform

abbrev Entries (α : Type) := List (String × α)

namespace Entries

variable {α β : Type}

def names (entries : Entries α) : List String := entries.map Prod.fst

def put (name : String) (value : α) : Entries α → Entries α
  | [] => [(name, value)]
  | (n, v) :: rest => if n = name then (n, value) :: rest else (n, v) :: put name value rest

/-- Puts the entries one after the other, starting from none. -/
def ofList (entries : List (String × α)) : Entries α :=
  entries.foldl (fun acc entry => put entry.1 entry.2 acc) []

@[simp] theorem names_nil : names ([] : Entries α) = [] := rfl

@[simp] theorem names_cons (entry : String × α) (rest : Entries α) :
    names (entry :: rest) = entry.1 :: names rest := rfl

theorem mem_names_of_mem {name : String} {value : α} {entries : Entries α}
    (h : (name, value) ∈ entries) : name ∈ names entries :=
  List.mem_map.mpr ⟨(name, value), h, rfl⟩

theorem lookup_eq_none_iff {name : String} {entries : Entries α} :
    entries.lookup name = none ↔ name ∉ names entries := by
  rw [List.lookup_eq_none_iff]
  constructor
  · intro h hMem
    obtain ⟨entry, hEntry, rfl⟩ := List.mem_map.mp hMem
    exact absurd (h entry hEntry) (by simp)
  · intro h entry hEntry
    rw [bne_iff_ne]
    rintro rfl
    exact h (mem_names_of_mem hEntry)

theorem mem_names_of_lookup {name : String} {value : α} {entries : Entries α}
    (h : entries.lookup name = some value) : name ∈ names entries := by
  apply Decidable.byContradiction
  intro absent
  rw [lookup_eq_none_iff.mpr absent] at h
  cases h

theorem lookup_put (name other : String) (value : α) (entries : Entries α) :
    (put name value entries).lookup other =
      if other = name then some value else entries.lookup other := by
  induction entries with
  | nil => by_cases h : other = name <;> simp [put, List.lookup_cons, h, beq_false_of_ne]
  | cons head rest ih =>
    obtain ⟨n, v⟩ := head
    rw [put]
    split
    · rename_i hHead
      subst hHead
      by_cases h : other = n <;> simp [List.lookup_cons, h, beq_false_of_ne]
    · rename_i hHead
      rw [List.lookup_cons, List.lookup_cons, ih]
      by_cases h : other = n
      · simp [h, hHead]
      · simp [beq_false_of_ne h]

theorem names_put (name : String) (value : α) (entries : Entries α) :
    names (put name value entries) =
      if name ∈ names entries then names entries else names entries ++ [name] := by
  induction entries with
  | nil => rfl
  | cons head rest ih =>
    obtain ⟨n, v⟩ := head
    simp only [names, put, List.map_cons, List.mem_cons] at ih ⊢
    by_cases h : n = name
    · simp [h]
    · have h' : name ≠ n := fun e => h e.symm
      by_cases hMem : name ∈ List.map Prod.fst rest <;> simp [h, h', ih, hMem]

theorem nodup_names_put (name : String) (value : α) {entries : Entries α}
    (h : (names entries).Nodup) : (names (put name value entries)).Nodup := by
  rw [names_put]
  split
  · exact h
  · rename_i absent
    exact List.nodup_append.mpr ⟨h, by simp, by
      intro a ha b hb
      rw [List.mem_singleton.mp hb]
      exact fun e => absent (e ▸ ha)⟩

/-- Whatever holds of the value put and of the entries before it holds of the entries after. -/
theorem forall_mem_put {p : α → Prop} (name : String) (value : α) {entries : Entries α}
    (hValue : p value) (h : ∀ entry ∈ entries, p entry.2) :
    ∀ entry ∈ put name value entries, p entry.2 := by
  induction entries with
  | nil => simpa [put] using hValue
  | cons head rest ih =>
    obtain ⟨n, v⟩ := head
    simp only [List.forall_mem_cons] at h
    rw [put]
    split
    · exact List.forall_mem_cons.mpr ⟨hValue, h.2⟩
    · exact List.forall_mem_cons.mpr ⟨h.1, ih h.2⟩

private theorem foldl_put_invariant {p : Entries α → Prop} {entries : List (String × α)}
    (step : ∀ acc, p acc → ∀ entry ∈ entries, p (put entry.1 entry.2 acc)) :
    ∀ acc, p acc → p (entries.foldl (fun acc entry => put entry.1 entry.2 acc) acc) := by
  induction entries with
  | nil => exact fun _ h => h
  | cons head rest ih =>
    intro acc h
    exact ih (fun acc hAcc entry hEntry => step acc hAcc entry (List.mem_cons_of_mem _ hEntry)) _
      (step acc h head List.mem_cons_self)

theorem nodup_names_ofList (entries : List (String × α)) : (names (ofList entries)).Nodup :=
  foldl_put_invariant (p := fun acc => (names acc).Nodup)
    (fun _ h entry _ => nodup_names_put entry.1 entry.2 h) [] List.nodup_nil

theorem forall_mem_ofList {p : α → Prop} {entries : List (String × α)}
    (h : ∀ entry ∈ entries, p entry.2) : ∀ entry ∈ ofList entries, p entry.2 :=
  foldl_put_invariant (p := fun acc => ∀ entry ∈ acc, p entry.2)
    (fun _ hAcc entry hEntry => forall_mem_put entry.1 entry.2 (h entry hEntry) hAcc) []
    (by simp)

end Entries

end Conform
