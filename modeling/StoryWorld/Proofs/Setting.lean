import StoryWorld.Proofs.Dumped
import StoryWorld.Proofs.Atomic

/-!
What setting a value changes.

Outside the assets a value that is set at a part of the document of a story takes the place of what
was there, in the story and in its document, and all other places stay where they are with what they
hold. An extra field whose name starts with an underscore is the exception: what is set there is
attached beside the document, which keeps the old value.
-/

namespace StoryWorld

namespace Value

/-- A document holds no entities. -/
theorem isPlain_of_isDocument (v : Value) (h : v.isDocument = true) : v.isPlain = true := by
  induction v, h using document_induct with
  | list xs _ ih => exact within_list.2 ih
  | mapping es _ _ ih => exact within_mapping.2 ih
  | _ => rfl

end Value

/-- Whether a step leads to an extra field whose name keeps it from being written out once it is
assigned to. -/
def Step.isPrivate : Step → Bool
  | slot (.extra name) => Assign.isPrivate name
  | _ => false

namespace Assign

/-- What is assigned to a part of a document takes its place, if nothing guards it. -/
theorem assign_eq_put {w old value : Value} {s : Step} (horder : w.Orderly)
    (hs : s.isDocumented = true) (hprivate : s.isPrivate = false) (hold : w.read s = .ok old)
    (hguarded : ∀ kind slots, w = .entity kind slots → kind.guarded = false) :
    assign w s value = (w.put s value, .ok ()) := by
  rcases Value.read_documented hs hold with ⟨kind, slots, n, rfl, rfl, -⟩ | ⟨es, k, rfl, rfl, -⟩ |
    ⟨xs, i, rfl, rfl, -⟩
  · have hkind := hguarded kind slots rfl
    cases n with
    | field name => simp [assign, toEntity, openField, hkind, horder.notes, Value.put]
    | extra name =>
      rw [Step.isPrivate] at hprivate
      simp [assign, toEntity, hkind, hprivate, Value.put]
    | attached name => cases hs
    | given => cases hs
  · rfl
  · rfl

end Assign

namespace Place

variable {story : Story} {place : Place} {old : Value}

theorem head?_ne_assets {path : String} (hplace : resolve story path = .ok place)
    (hroot : place.root ≠ .assets) :
    (Segment.split path.toList).head? ≠ some Root.assets.name.toList := by
  obtain ⟨parts, -, hsplit, -⟩ := resolve_ok.1 hplace
  rw [hsplit, List.head?_cons]
  intro heq
  have hname : place.root.name = Root.assets.name := String.toList_inj.1 (Option.some.inj heq)
  have hsame := (Root.ofName?_name place.root).symm.trans
    ((congrArg _ hname).trans (Root.ofName?_name _))
  exact hroot (Option.some.inj hsame)

/-- What stands in the container of a place is what a change at the place changes. -/
theorem setContainer_put (hd : place.isDocumented = true) {w v : Value}
    (hw : place.container story = .ok w) (hold : w.read place.last = .ok old) :
    place.setContainer story (w.put place.last v) = place.put story v := by
  have hbefore : ∀ s ∈ place.before, s.isDocumented = true := fun s hs =>
    isDocumented_iff.1 hd s (List.mem_append_left _ hs)
  have hlast : place.last.isDocumented = true :=
    isDocumented_iff.1 hd _ (List.mem_append_right _ List.mem_cons_self)
  rw [setContainer, put, Value.replace_append hbefore hw, Value.replace_cons hlast hold]
  rfl

/-- A write outside the assets puts the value in its place. -/
theorem write_eq_put (h : story.Apart) (horder : story.toEntity.Orderly)
    (hroot : place.root ≠ .assets) (hd : place.isDocumented = true)
    (hprivate : place.last.isPrivate = false) (hold : place.read story = .ok old) (path : String)
    (v : Value) : place.write story path v = (place.put story v, .ok ()) := by
  obtain ⟨w, hw, hread⟩ := Outcome.bind_ok.1 hold
  have hlast : place.last.isDocumented = true :=
    isDocumented_iff.1 hd _ (List.mem_append_right _ List.mem_cons_self)
  have hguarded : ∀ kind slots, w = .entity kind slots → kind.guarded = false := by
    rintro kind slots rfl
    have hkind := (Value.within_entity.1 (within_container h hroot hw)).1
    rw [Kind.elsewhere, Bool.and_eq_true, Bool.not_eq_true'] at hkind
    exact hkind.1
  rw [write, hw]
  have hw' : w.Orderly := (Story.orderly_root horder place.root).follow
    (fun s hs => isDocumented_iff.1 hd s (List.mem_append_left _ hs)) hw
  simp only [Assign.assign_eq_put hw' hlast hprivate hread hguarded, setContainer_put hd hw hread]
  rfl

end Place

namespace Delta

variable {document : Value} {story : Story} {delta : Delta} {place : Place}

/-- Deltas outside the assets are not rehearsed. -/
theorem amendPath_of_ne (hplace : Place.resolve story delta.path = .ok place)
    (hroot : place.root ≠ .assets) : amendPath story delta = amend story place delta := by
  rw [amendPath, hplace]
  simp only [rehearse, if_pos (Place.head?_ne_assets hplace hroot)]

/-- The document of a story with a tie and an extra field of its world whose name starts with an
underscore. -/
def moodDocument : Value :=
  .mapping [("world", .mapping [("_mood", .int 1)]),
    ("relationships", .list [.mapping [("id", .text "r"), ("from", .text "a"), ("to", .text "b"),
      ("weights", .mapping [("trust", .int 5)])]])]

/-- A delta that sets a number where a path leads. -/
def placing (path : String) (n : Int) : Delta := ⟨.set, path, .int n, none, none, none, none⟩

theorem eq_of_map_number? {o : Outcome Value} {n : Number}
    (h : o.map Value.number? = .ok (some n)) : o = .ok (.number n) := by
  obtain ⟨v, rfl, hv⟩ := Outcome.map_ok.1 h
  cases v <;> simp_all [Value.number?]

end Delta

end StoryWorld
