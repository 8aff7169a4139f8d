import Mathlib.Data.List.Basic
import StoryWorld.Delta.Amend
import StoryWorld.Proofs.Steps

/-!
What a path, and a delta at the end of it, depend on.

A path is resolved by its root alone, and a delta at a place changes the root of the place and
nothing else: on two stories with that root in common it has the same outcome and leaves the same
root. The steps of a path reach an entity as a whole only where a part of the path says so.
-/

namespace StoryWorld

/-! ### Steps that pass the guards of an entity -/

/-- Whether a name can lead past the guards of an entity: as that of what it holds as a whole does,
any name with two underscores at either end may, and those of the settings and the fields of its
kind. -/
def Kind.isReserved (name : String) : Bool :=
  ['_', '_'].isPrefixOf name.toList && ['_', '_'].isSuffixOf name.toList ||
    name == "model_config" || name == "model_fields"

theorem Kind.isReserved_ownName : Kind.isReserved Kind.ownName = true := by decide +kernel

/-- Whether a segment has such a name, or such a key behind it. -/
def Segment.namesReserved (segment : Segment) : Bool :=
  Kind.isReserved segment.name ||
    match segment.accessor with
    | some (.key k) => Kind.isReserved k
    | _ => false

/-- Whether a path into the assets may lead past the guards of what is there. -/
def Place.passesGuards (path : String) : Bool :=
  match Segment.split path.toList with
  | [] => false
  | root :: parts =>
    root == Root.assets.name.toList &&
      match Segment.parseAll path parts with
      | .ok segments => segments.any Segment.namesReserved
      | .error _ => false

namespace Locate

/-- The step to an extra field goes by a built-in name only if that is the name of the field. -/
theorem extraStep_builtin {kind : Kind} {slots : List (Slot × Value)} {name n : String}
    (h : Value.extraStep kind slots name = .builtin n) : n = name := by
  unfold Value.extraStep at h
  split at h
  · cases h
  · split at h
    · split at h
      · split at h
        · cases h
        · exact (Step.builtin.inj h).symm
      · exact (Step.builtin.inj h).symm
    · split at h <;> cases h

/-- A step to a built-in name is named so. -/
theorem child_builtin {path name n : String} {v : Value}
    (h : child path v name = .ok (.builtin n)) : n = name := by
  unfold child at h
  split at h
  · split at h
    · rename_i kind slots step hstep
      obtain rfl : step = .builtin n := by simpa using h
      unfold fieldStep? at hstep
      split at hstep
      · cases hstep
      · split at hstep
        · exact extraStep_builtin (Option.some.inj hstep)
        · cases hstep
    · cases h
  · split at h <;> cases h
  · split at h <;> cases h
  · cases h

/-- So it is where an accessor leads there. -/
theorem access_builtin {path name n : String} {v : Value} {accessor : Accessor}
    (h : access path name v accessor = .ok (.builtin n)) : accessor = .key n := by
  cases accessor with
  | key k => rw [child_builtin h]
  | position i =>
    simp only [access] at h
    split at h
    · split at h <;> cases h
    · cases h

theorem stepsOf_spares {path : String} {v : Value} {segment : Segment} {steps : List Step}
    (h : stepsOf path v segment = .ok steps) (hs : segment.namesReserved = false) :
    Step.builtin Kind.ownName ∉ steps := by
  simp only [Segment.namesReserved, Bool.or_eq_false_iff] at hs
  obtain ⟨first, hc, h⟩ := Outcome.bind_ok.1 h
  have hfirst : first ≠ .builtin Kind.ownName := by
    rintro rfl
    rw [← child_builtin hc, Kind.isReserved_ownName] at hs
    cases hs.1
  split at h
  · obtain rfl := Outcome.pure_ok.1 h
    simpa using hfirst.symm
  · obtain ⟨w, -, h⟩ := Outcome.bind_ok.1 h
    obtain ⟨second, hw, h⟩ := Outcome.bind_ok.1 h
    obtain rfl := Outcome.pure_ok.1 h
    have hsecond : second ≠ .builtin Kind.ownName := by
      rintro rfl
      rw [‹segment.accessor = _›, access_builtin hw] at hs
      simp [Kind.isReserved_ownName] at hs
    simp [hfirst.symm, hsecond.symm]

theorem stepsFrom_spares {path : String} : ∀ {v : Value} {segments : List Segment}
    {steps : List Step}, stepsFrom path v segments = .ok steps →
      segments.any Segment.namesReserved = false → Step.builtin Kind.ownName ∉ steps
  | v, [], steps, h, _ => by
    obtain rfl : [] = steps := by simpa [stepsFrom] using h
    simp
  | v, [segment], steps, h, hs => stepsOf_spares h (by simpa using hs)
  | v, segment :: next :: rest, steps, h, hs => by
    rw [List.any_cons, Bool.or_eq_false_iff] at hs
    obtain ⟨first, hf, h⟩ := Outcome.bind_ok.1 h
    obtain ⟨w, -, h⟩ := Outcome.bind_ok.1 h
    obtain ⟨more, hm, h⟩ := Outcome.bind_ok.1 h
    obtain rfl := Outcome.pure_ok.1 h
    simp [stepsOf_spares hf hs.1, stepsFrom_spares hm hs.2]

end Locate

namespace Place

/-- All steps of a place. -/
def steps (place : Place) : List Step := place.before ++ [place.last]

theorem steps_ofSteps {root : Root} {steps : List Step} {place : Place}
    (h : ofSteps root steps = some place) : place.root = root ∧ place.steps = steps := by
  unfold ofSteps at h
  split at h
  · rename_i last hlast
    obtain rfl := by simpa using h
    exact ⟨rfl, List.dropLast_append_getLast? last hlast⟩
  · cases h

theorem ofSteps_steps (place : Place) : ofSteps place.root place.steps = some place := by
  simp [ofSteps, steps]

/-- A place is read by following its steps. -/
theorem read_eq (story : Story) (place : Place) :
    place.read story = (story.root place.root).follow place.steps := by
  rw [steps, Value.follow_append, read, container]
  cases (story.root place.root).follow place.before with
  | error fault => rfl
  | ok w =>
    show w.read place.last = (w.read place.last).bind fun v => .ok v
    cases w.read place.last <;> rfl

/-- What it takes for a path to resolve: a root it names first, and segments that lead on from
there. -/
theorem resolve_ok {story : Story} {path : String} {place : Place} :
    resolve story path = .ok place ↔
    ∃ parts segments, Segment.split path.toList = place.root.name.toList :: parts ∧
      Segment.parseAll path parts = .ok segments ∧
      Locate.locate path (story.root place.root) segments = .ok place.steps := by
  constructor
  · intro h
    unfold resolve at h
    split at h
    · rename_i first second rest hsplit
      simp only at h
      split at h
      · cases h
      · rename_i root hroot
        have hname : root.name.toList = first := by
          rw [Root.name_of_ofName? hroot, String.toList_ofList]
        obtain ⟨segments, hp, h⟩ := Outcome.bind_ok.1 h
        obtain ⟨steps, hl, h⟩ := Outcome.bind_ok.1 h
        split at h
        · rename_i p ho
          obtain rfl := Outcome.pure_ok.1 h
          obtain ⟨rfl, rfl⟩ := steps_ofSteps ho
          exact ⟨second :: rest, segments, by rw [hsplit, hname], hp, hl⟩
        · exact absurd h Outcome.refuse_ne_ok
    · cases h
  · rintro ⟨parts, segments, hsplit, hp, hl⟩
    cases parts with
    | nil =>
      obtain rfl : [] = segments := by simpa [Segment.parseAll] using hp
      exact absurd hl Outcome.refuse_ne_ok
    | cons second rest =>
      simp [resolve, hsplit, String.ofList_toList, hp, hl, ofSteps_steps, bind, Except.bind]

/-- A path resolves to the same place in stories with the root of the place in common. -/
theorem resolve_congr {s t : Story} {path : String} {place : Place}
    (h : resolve s path = .ok place) (hr : s.root place.root = t.root place.root) :
    resolve t path = .ok place := by
  rw [resolve_ok] at h ⊢
  rwa [← hr]

/-- The steps of a path into the assets that passes no guards reach no entity as a whole. -/
theorem resolve_spares {story : Story} {path : String} {place : Place}
    (h : resolve story path = .ok place) (hroot : place.root = .assets)
    (hp : passesGuards path = false) : Step.builtin Kind.ownName ∉ place.steps := by
  obtain ⟨parts, segments, hsplit, hparse, hlocate⟩ := resolve_ok.1 h
  have hs : segments.any Segment.namesReserved = false := by
    simpa [passesGuards, hsplit, hroot, hparse] using hp
  unfold Locate.locate at hlocate
  split at hlocate
  · cases hlocate
  · exact Locate.stepsFrom_spares hlocate hs

/-! ### One root at a time -/

variable {s t : Story} {place : Place}

theorem container_congr (h : s.root place.root = t.root place.root) :
    place.container s = place.container t := by
  rw [container, container, h]

theorem read_congr (h : s.root place.root = t.root place.root) : place.read s = place.read t := by
  rw [read, read, container_congr h]

theorem itemKind?_congr (h : s.root place.root = t.root place.root) :
    place.itemKind? s = place.itemKind? t := by
  rw [itemKind?, itemKind?, container_congr h]

/-- Writing at a place changes its root only, and by that root only. -/
theorem write_congr (h : s.root place.root = t.root place.root) (path : String) (value : Value) :
    ∃ v o, place.write s path value = (s.setRoot place.root v, o) ∧
      place.write t path value = (t.setRoot place.root v, o) := by
  unfold write
  rw [container_congr h]
  split
  · rename_i fault _
    refine ⟨s.root place.root, .error fault, by simp, ?_⟩
    rw [h, Story.setRoot_root]
  · rename_i w _
    refine ⟨(s.root place.root).replace place.before (Assign.assign w place.last value).1, _, rfl, ?_⟩
    rw [h]
    rfl

theorem put_congr (h : s.root place.root = t.root place.root) (value : Value) :
    ∃ v, place.put s value = s.setRoot place.root v ∧
      place.put t value = t.setRoot place.root v :=
  ⟨_, rfl, by rw [put, h]⟩

end Place

namespace Delta

variable {s t : Story} {place : Place}

theorem requireList_congr (h : s.root place.root = t.root place.root) (delta : Delta) :
    requireList s place delta = requireList t place delta := by
  rw [requireList, requireList, Place.read_congr h]

theorem requireNumbers_congr (h : s.root place.root = t.root place.root) (delta : Delta) :
    requireNumbers s place delta = requireNumbers t place delta := by
  rw [requireNumbers, requireNumbers, Place.read_congr h]

theorem newItem_congr (h : s.root place.root = t.root place.root) (delta : Delta) :
    newItem s place delta = newItem t place delta := by
  rw [newItem, newItem, Place.itemKind?_congr h]

theorem replacement_congr (h : s.root place.root = t.root place.root) (delta : Delta) :
    replacement s place delta = replacement t place delta := by
  rw [replacement, replacement, Place.read_congr h]

theorem writeOutcome_congr (h : s.root place.root = t.root place.root) (path : String)
    (value : Outcome Value) :
    ∃ v o, writeOutcome s place path value = (s.setRoot place.root v, o) ∧
      writeOutcome t place path value = (t.setRoot place.root v, o) := by
  cases value with
  | ok v => exact Place.write_congr h path v
  | error fault =>
    refine ⟨s.root place.root, .error fault, by simp [writeOutcome], ?_⟩
    rw [h, Story.setRoot_root, writeOutcome]

theorem putOutcome_congr (h : s.root place.root = t.root place.root)
    (xs : Outcome (List Value)) :
    ∃ v o, putOutcome s place xs = (s.setRoot place.root v, o) ∧
      putOutcome t place xs = (t.setRoot place.root v, o) := by
  cases xs with
  | ok xs =>
    obtain ⟨v, hs, ht⟩ := Place.put_congr h (.list xs)
    exact ⟨v, .ok (), by rw [putOutcome, hs], by rw [putOutcome, ht]⟩
  | error fault =>
    refine ⟨s.root place.root, .error fault, by simp [putOutcome], ?_⟩
    rw [h, Story.setRoot_root, putOutcome]

/-- A delta at a place changes the root of the place only, and what it does there depends on that
root only. -/
theorem amend_congr (h : s.root place.root = t.root place.root) (delta : Delta) :
    ∃ v o, amend s place delta = (s.setRoot place.root v, o) ∧
      amend t place delta = (t.setRoot place.root v, o) := by
  have hcomputed : ∀ f, computed s place delta f = computed t place delta f := fun f => by
    rw [computed, computed, requireNumbers_congr h]
  have happended : appended s place delta = appended t place delta := by
    rw [appended, appended, requireList_congr h, newItem_congr h]
  have hremoved : removed s place delta = removed t place delta := by
    rw [removed, removed, requireList_congr h]
  unfold amend
  split
  · rw [replacement_congr h]
    exact writeOutcome_congr h _ _
  · rw [happended]
    exact putOutcome_congr h _
  · rw [hremoved]
    exact putOutcome_congr h _
  · refine ⟨s.root place.root, _, by rw [Story.setRoot_root], ?_⟩
    rw [h, Story.setRoot_root]
  · split
    · rw [hcomputed]
      exact writeOutcome_congr h _ _
    · refine ⟨s.root place.root, _, by rw [Story.setRoot_root], ?_⟩
      rw [h, Story.setRoot_root]

/-- On the assets the rehearsal goes as the delta would go in earnest, and then looks at the ledger that
the delta would leave. -/
theorem rehearse_eq {story : Story} {delta : Delta}
    (hplace : Place.resolve story delta.path = .ok place) (hroot : place.root = .assets) :
    rehearse story delta = (do
      let _ ← (amend story place delta).2
      match ← Ledger.flaw? (amend story place delta).1.assets with
      | none => return ()
      | some flaw =>
        refuse .invalidDelta ("Delta would break the cash ledger: " ++ flaw.message)) := by
  obtain ⟨parts, segments, hsplit, -⟩ := Place.resolve_ok.1 hplace
  have hassets : story.root place.root = (onTrial story).root place.root := by
    rw [hroot]
    rfl
  obtain ⟨v, o, hlive, htrial⟩ := amend_congr hassets delta
  rw [rehearse, if_neg (by rw [hsplit, hroot]; simp), amendAt,
    Place.resolve_congr hplace hassets]
  simp only [htrial, hlive, hroot]
  cases o <;> rfl

/-- A path delta changes nothing, or does at its place what it does there; on the assets only if it
works and leaves the cash ledger without a flaw, as it did on the copy. -/
theorem amendPath_cases (story : Story) (delta : Delta) :
    (∃ fault, amendPath story delta = (story, .error fault)) ∨
    ∃ place, Place.resolve story delta.path = .ok place ∧
      amendPath story delta = amend story place delta ∧
      (place.root = .assets → (amend story place delta).2 = .ok () ∧
        Ledger.flaw? (amend story place delta).1.assets = .ok none) := by
  unfold amendPath
  split
  · exact .inl ⟨_, rfl⟩
  rename_i place hplace
  split
  · exact .inl ⟨_, rfl⟩
  rename_i hrehearse
  refine .inr ⟨place, hplace, rfl, fun hroot => ?_⟩
  rw [rehearse_eq hplace hroot] at hrehearse
  obtain ⟨_, hamend, hrehearse⟩ := Outcome.bind_ok.1 hrehearse
  obtain ⟨flaw, hflaw, hrehearse⟩ := Outcome.bind_ok.1 hrehearse
  cases flaw with
  | none => exact ⟨hamend, hflaw⟩
  | some flaw => exact absurd hrehearse Outcome.refuse_ne_ok

/-- What an amendment keeps wherever the path of a delta leads, the path delta keeps. -/
theorem amendPath_keeps {P : Story → Prop} {story : Story} {delta : Delta} (h : P story)
    (hamend : ∀ place, Place.resolve story delta.path = .ok place →
      P (amend story place delta).1) : P (amendPath story delta).1 := by
  rcases amendPath_cases story delta with ⟨_, heq⟩ | ⟨place, hplace, heq, -⟩
  · rw [heq]
    exact h
  · rw [heq]
    exact hamend place hplace

end Delta

end StoryWorld
