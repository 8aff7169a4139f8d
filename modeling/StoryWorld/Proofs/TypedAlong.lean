import StoryWorld.Proofs.Lasting
import StoryWorld.Proofs.Typed

/-!
Entities stay typed where deltas keep to the types.

A delta that is applied changes a story along one way. What stands beside the way is as before, so
the story is typed after the change if the innermost slot on the way is left with a value of the
type that is relied on there. Nothing is asked of a way that passes through a field that is not
looked into. So a story that was read stays typed over any run of deltas each of which keeps to the
types in its turn.
-/

namespace StoryWorld

namespace Schema

open Value

/-- Whether what a slot of a kind holds is typed, as far as it is looked into. -/
def typedSlot (limited : Bool) (kind : Kind) : Slot → Value → Bool
  | .field name, x => (kind.field? name).all fun f => typedField limited kind f x
  | slot, x => typedBeside limited kind (slot, x)

/-- Whether a step goes into a declared field that is not looked into. -/
def passesBy (v : Value) (s : Step) : Bool :=
  match v, s with
  | .entity kind _, .slot (.field name) => !kind.lookedInto.contains name
  | _, _ => false

/-- Whether what the innermost slot on a way holds is typed, as far as it is looked into. -/
def typedAlong (limited : Bool) : Value → List Step → Bool
  | _, [] => true
  | v, s :: rest =>
    match v.read s with
    | .error _ => true
    | .ok x =>
      if rest.any Step.isSlot then passesBy v s || typedAlong limited x rest
      else
        match v, s with
        | .entity kind _, .slot slot => typedSlot limited kind slot x
        | _, _ => true

variable {limited : Bool} {shape : Shape} {v v' x : Value} {steps : List Step}

theorem typed_core (hv : v.category ≠ .null) :
    ∀ shape : Shape, typed limited shape.core v = typed limited shape v
  | .optional inner => by
    rw [Shape.core, typed_core hv inner, typed, beq_false_of_ne hv, Bool.false_or]
  | .any | .truth | .text | .choice _ | .whole | .real | .number | .list _ | .mapping _
  | .record _ _ => rfl

theorem fades_of_not_document {kind : Kind} (h : x.isDocument ≠ true) : fades kind x = true := by
  cases x with
  | number n => exact absurd rfl h
  | _ => simp [fades, number?]

/-- An entity with other slots is typed if it was before with the slots apart from one, and what
that one holds now is typed. -/
theorem typed_entity_changed {kind : Kind} {slots slots' : List (Slot × Value)} {n : Slot}
    (hstanding : IsStanding kind slots') (hsame : SameBeside n slots slots')
    (h : typed limited kind.shape (.entity kind slots) = true)
    (hn : ∀ y, Table.get? n slots' = some y → typedSlot limited kind n y = true) :
    typed limited kind.shape (.entity kind slots') = true := by
  obtain ⟨-, hfields, hbeside⟩ := typed_entity.1 h
  refine typed_entity.2 ⟨rfl, fun f hf => ?_, ?_⟩
  · by_cases hname : Slot.field f.1.name = n
    · obtain ⟨y, hy⟩ := Table.has_iff.1 (hstanding.fits.holdsFields f hf)
      have hslot := hn y (hname ▸ hy)
      rw [← hname, typedSlot, Kind.field?, (inOrder_kind hstanding.inStory).find? hf] at hslot
      exact ⟨y, hy, hslot⟩
    · obtain ⟨y, hy, htyped⟩ := hfields f hf
      exact ⟨y, (hsame.same _ hname (by simp)).trans hy, htyped⟩
  · rintro ⟨m, y⟩ he
    have hy := (Table.get?_eq_some_iff hstanding.fits.unique).2 he
    cases m with
    | field name =>
      have hmem := Table.mem_keys_of_get? hy
      obtain ⟨f, hf, rfl⟩ := (hstanding.fits.declared name).1 hmem
      simp [typedBeside, Kind.field?, (inOrder_kind hstanding.inStory).find? hf]
    | extra name =>
      by_cases hname : Slot.extra name = n
      · subst hname
        exact hn y hy
      · exact hbeside _ (Table.mem_of_get? ((hsame.same _ hname (by simp)).symm.trans hy))
    | given => exact absurd (Table.mem_keys_of_get? hy) hstanding.fits.given
    | attached name =>
      show Assign.isPrivate name = true
      have hmem := Table.mem_keys_of_get? hy
      rcases hsame.attached name hmem with hbefore | hprivate
      · obtain ⟨z, hz⟩ := Table.mem_keys_iff.1 hbefore
        exact hbeside (.attached name, z) (Table.mem_of_get? hz)
      · exact hprivate

/-- After a change along a way a typed value is typed if what the innermost slot on the way holds
is. -/
theorem typed_changedAlong (h : ChangedAlong v v' steps) (hv : Stands shape v)
    (hv' : Stands shape v') (ht : typed limited shape v = true)
    (halong : typedAlong limited v' steps = true) : typed limited shape v' = true := by
  -- Only the innermost slot is asked about. Above it an entity or a container of them takes the
  -- place of another, so what is there fades as before and the types of the rest carry over.
  induction h generalizing shape with
  | @slot kind slots slots' n rest hrest hsame =>
    obtain ⟨hcore, -⟩ := stands_entity.1 hv
    obtain ⟨-, hstanding⟩ := stands_entity.1 hv'
    rw [← typed_core (by simp [category]), hcore] at ht ⊢
    refine typed_entity_changed hstanding hsame ht fun y hy => ?_
    simpa [typedAlong, Value.read, hy, hrest] using halong
  | @inside v x x' s rest hs hx hrest h ih =>
    have hx' : (v.put s x').read s = .ok x' := read_put_held hs hx
    obtain ⟨hplain, hplain'⟩ := h.not_document
    rw [typedAlong, hx'] at halong
    simp only [hrest, if_true, Bool.or_eq_true] at halong
    rcases read_held hs hx with ⟨kind, slots, n, rfl, rfl, hget⟩ | ⟨es, k, rfl, rfl, hget⟩ |
      ⟨xs, i, rfl, rfl, hget⟩
    · obtain ⟨hcore, hstanding⟩ := stands_entity.1 hv
      obtain ⟨-, hstanding'⟩ := stands_entity.1 hv'
      have hmem := Table.mem_keys_of_get? hget
      rw [← typed_core (by simp [category]), hcore] at ht
      rw [← typed_core (by simp [Value.put, category]), hcore]
      refine typed_entity_changed hstanding' (sameBeside_put hmem x') ht fun y hy => ?_
      obtain rfl := Option.some.inj ((Table.get?_put_self n x' slots).symm.trans hy)
      cases n with
      | extra name => exact absurd (hstanding.others _ x hget (by simp)) hplain
      | attached name => exact absurd (hstanding.others _ x hget (by simp)) hplain
      | given => exact absurd hmem hstanding.fits.given
      | field name =>
        obtain ⟨f, hf, rfl⟩ := (hstanding.fits.declared name).1 hmem
        rw [typedSlot, Kind.field?, (inOrder_kind hstanding.inStory).find? hf, Option.all_some,
          typedField]
        cases hlooked : kind.lookedInto.contains f.1.name with
        | false => rfl
        | true =>
          obtain ⟨z, hz, htyped⟩ := (typed_entity.1 ht).2.1 f hf
          obtain rfl := Option.some.inj (hget.symm.trans hz)
          rw [typedField, hlooked] at htyped
          have hstands := hstanding.declared f hf x hget
          have hstands' := hstanding'.declared f hf x' (Table.get?_put_self _ x' slots)
          have hpast : ¬passesBy ((Value.entity kind slots).put (.slot (.field f.1.name)) x')
              (.slot (.field f.1.name)) = true := by
            simp only [Value.put, passesBy, hlooked]
            decide
          have hinner := ih hstands hstands' (by simpa using (Bool.and_eq_true_iff.1 htyped).1)
            (halong.resolve_left hpast)
          simp [hinner, fades_of_not_document hplain']
    · have hrest' := halong.resolve_left (by simp [Value.put, passesBy])
      rw [Value.put] at hv' ⊢
      have hmem := Table.mem_of_get? hget
      have hmem' := Table.mem_of_get? (Table.get?_put_self k x' es)
      obtain ⟨item, hcore, -, -, hall, hall'⟩ := stands_put hget hplain hplain' hv hv'
      rw [← typed_core (by simp [category]), hcore, typed, List.all_eq_true] at ht ⊢
      refine (forall_put_iff (p := fun y => typed limited item y = true) ht).2 ?_
      exact ih (hall _ hmem) (hall' _ hmem') (ht _ hmem) hrest'
    · have hrest' := halong.resolve_left (by simp [Value.put, passesBy])
      rw [Value.put] at hv' ⊢
      have hmem := List.mem_of_getElem? hget
      have hmem' : x' ∈ xs.set i x' := List.mem_set (List.getElem?_eq_some_iff.1 hget).1 x'
      obtain ⟨item, hcore, hall, hall'⟩ := stands_set hget hplain hplain' hv hv'
      rw [← typed_core (by simp [category]), hcore, typed, List.all_eq_true] at ht ⊢
      refine (forall_set_iff (p := fun y => typed limited item y = true) hget ht).2 ?_
      exact ih (hall _ hmem) (hall' _ hmem') (ht _ hmem) hrest'

end Schema

namespace Delta

variable {story : Story} {delta : Delta} {limited : Bool} {tag : Tag}

/-- Whether a delta leaves in the innermost slot on the way to its place a value of the type that is
relied on there. -/
def keepsTypes (limited : Bool) (story : Story) (delta : Delta) : Bool :=
  (place? story delta).all fun place =>
    Schema.typedAlong limited (perform story delta).1.toEntity place.route

/-- A story stays typed after a delta that is applied and keeps to the types. -/
theorem typed_perform (h : story.Standing) (hd : delta.value.isDocument = true)
    (hu : Unshadowed story delta) (hok : (perform story delta).2 = .ok ())
    (hkeeps : keepsTypes limited story delta = true) (ht : story.typed limited = true) :
    (perform story delta).1.typed limited = true := by
  obtain ⟨place, hplace, -, hchanged⟩ := changedAlong_perform h hu hok
  rw [keepsTypes, hplace, Option.all_some] at hkeeps
  exact Schema.typed_changedAlong hchanged h.stands.whole (standing_perform h hd hu).stands.whole ht
    hkeeps

/-- A story stays typed over deltas each of which is applied and keeps to the types in its turn. -/
theorem typed_applyEach {deltas : List Delta} {story : Story} (h : story.Standing)
    (hd : ∀ d ∈ deltas, d.value.isDocument = true) (hu : InTurn Unshadowed story deltas)
    (hok : InTurn (fun s d => (apply s d tag).isApplied = true) story deltas)
    (hkeeps : InTurn (fun s d => keepsTypes limited s d = true) story deltas)
    (ht : story.typed limited = true) : (applyEach story tag deltas).story.typed limited = true := by
  have hstep : ∀ s d, s.Standing ∧ s.typed limited = true → d.value.isDocument = true →
      Unshadowed s d ∧ (apply s d tag).isApplied = true ∧ keepsTypes limited s d = true →
        (perform s d).1.Standing ∧ (perform s d).1.typed limited = true := by
    rintro s d ⟨h, ht⟩ hd ⟨hu, happlied, hkeeps⟩
    obtain ⟨c, hc⟩ := Run.isApplied_iff.1 happlied
    have hperform : (perform s d).2 = .ok () := by
      rcases perform_of_apply hc with ⟨-, hp⟩ | ⟨code, message, ⟨⟩, -⟩
      rw [hp]
    exact ⟨standing_perform h hd hu, typed_perform h hd hu hperform hkeeps ht⟩
  exact (applyEach_keeps_inTurn hstep ⟨h, ht⟩ hd (hu.and (hok.and hkeeps))).2

end Delta

end StoryWorld
