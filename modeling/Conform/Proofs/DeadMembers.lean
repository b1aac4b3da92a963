import Conform.Proofs.MixedUnion
import Conform.Proofs.UnionMembers
import Mathlib.Logic.Relation

/-! # Dead members of unions

A member that repeats an earlier one reads nothing that the earlier one left over, and mixed leaves over
only what no kind reads. So either can be left out of a union at any depth, in both modes. A union
with mixed rejects lists, makes a fault of every object, wherever mixed stands in it, and takes
everything else.
-/

set_option autoImplicit false

namespace Conform

namespace Kind

/-- A member is left out that repeats an earlier one, or that stands after mixed. -/
inductive DropsDead : List Kind → List Kind → Prop
  | drop {front back : List Kind} {kind : Kind} : kind ∈ front ∨ .mixed ∈ front →
      DropsDead (front ++ kind :: back) (front ++ back)

section Dead

variable {mode : Mode} {value : Json} {kind : Kind} {kinds others front : List Kind}

theorem read?_eq_none_of_dead (hDead : kind ∈ front ∨ .mixed ∈ front)
    (h : readFirst? mode value front = none) : kind.read? mode value = none := by
  have hFront := List.findSome?_eq_none_iff.mp h
  rcases hDead with hRepeated | hMixed
  · exact hFront kind hRepeated
  · have hNone := read?_eq_none_iff.mp (hFront .mixed hMixed)
    exact read?_eq_none_iff.mpr fun _ => not_fits_of_not_fits_mixed hNone

theorem readFirst?_append (front back : List Kind) : readFirst? mode value (front ++ back) =
    (readFirst? mode value front).or (readFirst? mode value back) :=
  List.findSome?_append

theorem DropsDead.readFirst?_eq (h : DropsDead kinds others) (mode : Mode) (value : Json) :
    readFirst? mode value kinds = readFirst? mode value others := by
  cases h with
  | @drop front back kind hDead =>
    rw [readFirst?_append, readFirst?_append, readFirst?_cons]
    cases hFront : readFirst? mode value front with
    | some out => rfl
    | none => rw [read?_eq_none_of_dead hDead hFront, Option.none_or]

/-- No dead member is the only mixed of its union. -/
theorem DropsDead.refusal_eq (h : DropsDead kinds others) : refusal kinds = refusal others := by
  cases h with
  | @drop front back kind hDead =>
    have hMixed : .mixed ∈ front ++ kind :: back ↔ .mixed ∈ front ++ back := by
      rw [List.mem_append, List.mem_append, List.mem_cons]
      constructor
      · rintro (hFront | rfl | hBack)
        · exact Or.inl hFront
        · exact Or.inl (hDead.elim id id)
        · exact Or.inr hBack
      · rintro (hFront | hBack)
        · exact Or.inl hFront
        · exact Or.inr (Or.inr hBack)
    rw [refusal, refusal]
    simp only [hMixed]

theorem DropsDead.read_eq (h : Relation.ReflTransGen DropsDead kinds others) (mode : Mode)
    (value : Json) : Walk.read mode kinds value = Walk.read mode others value := by
  induction h with
  | refl => rfl
  | tail _ hStep ih => rw [ih, Walk.read, Walk.read, hStep.readFirst?_eq, hStep.refusal_eq]

end Dead

end Kind

namespace Engine

section MixedMember

variable {state : State} {kinds : List Kind} {value : Json}

theorem union_run_of_isArray (h : value.isArray = true) :
    (union kinds value).run state = .error .rejected state := by
  rw [union_run, if_pos h]

theorem union_run_of_scalar (hMixed : .mixed ∈ kinds) (h : value.isCompound = false) :
    ∃ out, (union kinds value).run state = .ok out state := by
  obtain ⟨out, hOut⟩ := @Kind.exists_fits_mixed_of_scalar state.options.mode _ h
  obtain ⟨first, hFirst⟩ := Kind.exists_fitsFirst ⟨.mixed, hMixed, out, hOut⟩
  exact ⟨first, (union_run_eq_ok_iff state (Json.isArray_of_scalar h)).mpr hFirst⟩

theorem union_run_of_object (hMixed : .mixed ∈ kinds) (entries : Record) :
    (union kinds (.obj entries)).run state =
      .error (.fault (.notScalar state.cursor.path)) state := by
  rw [union_run, Kind.readFirst?_of_isCompound rfl, Kind.refusal, if_pos hMixed]
  rfl

end MixedMember

end Engine

namespace Schema

/-- Leaving out members of unions that repeat earlier ones or stand after mixed, any number of them and at
any depth, changes no outcome: not the record, nor the path of a rejection, nor a fault. Of a union with
mixed, lists are rejected, objects are a fault at the cursor, and all other values are accepted. -/
theorem coerce_of_dropsDead :
    (∀ first second : Schema,
      first.Unionwise (Relation.ReflTransGen Kind.DropsDead) second → ∀ input options,
        first.coerce input options = second.coerce input options) ∧
    ∀ kinds, .mixed ∈ kinds → ∀ value state,
      (value.isArray = true →
        (Engine.union kinds value).run state = .error .rejected state) ∧
      (value.isCompound = false →
        ∃ out, (Engine.union kinds value).run state = .ok out state) ∧
      ∀ entries, value = .obj entries →
        (Engine.union kinds value).run state =
          .error (.fault (.notScalar state.cursor.path)) state := by
  constructor
  · intro first second h input options
    exact coerce_eq_of_unionwise (fun _ _ hDrops => Kind.DropsDead.read_eq hDrops options.mode) h
      input
  · intro kinds hMixed value state
    refine ⟨Engine.union_run_of_isArray, Engine.union_run_of_scalar hMixed, ?_⟩
    rintro entries rfl
    exact Engine.union_run_of_object hMixed entries

def keysSchema : Schema :=
  .ofFields [("rows", .nested [("key", .union [.int, .mixed, .int, .boolean])])]

def liveKeysSchema : Schema := .ofFields [("rows", .nested [("key", .union [.int, .mixed])])]

-- The second int and the boolean are dead: mixed stands before both and takes all that they would take.
theorem coerce_of_dropsDead_keys :
    keysSchema.Unionwise (Relation.ReflTransGen Kind.DropsDead) liveKeysSchema ∧
    keysSchema.coerce (.obj [("rows", .arr [.obj [("key", .str "true")], .obj [("key", .obj [])]])])
      { mode := .lenient } = .faulted (.notScalar ["rows", "1", "key"]) ∧
    liveKeysSchema.coerce
      (.obj [("rows", .arr [.obj [("key", .str "true")], .obj [("key", .obj [])]])])
      { mode := .lenient } = .faulted (.notScalar ["rows", "1", "key"]) ∧
    (.mixed ∈ [Kind.int, .mixed] ∧
      (Engine.union [.int, .mixed] (.arr [])).run { cursor := { path := ["key"] } } =
        .error .rejected { cursor := { path := ["key"] } } ∧
      (∃ out, (Engine.union [.int, .mixed] .null).run { cursor := { path := ["key"] } } =
        .ok out { cursor := { path := ["key"] } }) ∧
      (Engine.union [.int, .mixed] (.obj [])).run { cursor := { path := ["key"] } } =
        .error (.fault (.notScalar ["key"])) { cursor := { path := ["key"] } }) := by
  have hBoolean : Kind.DropsDead [.int, .mixed, .int, .boolean] [.int, .mixed, .int] :=
    @Kind.DropsDead.drop [.int, .mixed, .int] [] .boolean (Or.inr (by decide))
  have hInt : Kind.DropsDead [.int, .mixed, .int] [.int, .mixed] :=
    @Kind.DropsDead.drop [.int, .mixed] [] .int (Or.inl (by decide))
  have h : keysSchema.Unionwise (Relation.ReflTransGen Kind.DropsDead) liveKeysSchema :=
    .cons (.nested (.cons (.union (.tail (.single hBoolean) hInt)) .nil)) .nil
  have hFault : keysSchema.coerce
      (.obj [("rows", .arr [.obj [("key", .str "true")], .obj [("key", .obj [])]])])
      { mode := .lenient } = .faulted (.notScalar ["rows", "1", "key"]) := by decide +kernel
  have hMixed : .mixed ∈ [Kind.int, .mixed] := by decide
  have hUnion := coerce_of_dropsDead.2 _ hMixed
  exact ⟨h, hFault, (coerce_of_dropsDead.1 _ _ h _ _).symm.trans hFault, hMixed,
    (hUnion _ _).1 rfl, (hUnion _ _).2.1 rfl, (hUnion _ _).2.2 [] rfl⟩

end Schema

end Conform
