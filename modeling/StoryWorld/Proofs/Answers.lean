import StoryWorld.Proofs.Commuting
import StoryWorld.Proofs.Sizes
import StoryWorld.Proofs.Upheld

/-!
Where following a path and writing at its place are answered.

An outcome is an answer if it is a result or a refusal; a delta with any other outcome ends the
batch that it is in. On a story that stands, and through what it holds, a path is followed or
refused unless it has an index with too many digits. At its place a value is written or refused,
unless it is a number that is to be a balance and that no float comes near to.
-/

namespace StoryWorld

/-- Whether an outcome is an answer: a result or a refusal. -/
abbrev Outcome.Answered {α : Type} (x : Outcome α) : Prop :=
  x.FailsOnly fun fault => ∃ code message, fault = .refused code message

open Outcome

theorem Outcome.answered_error {α β : Type} {fault : Fault} :
    Answered (.error fault : Outcome α) ↔ Answered (.error fault : Outcome β) :=
  failsOnly_error.trans (Iff.symm failsOnly_error)

/-! ### Following a path -/

/-- Parts of a path are refused, or one of them has an index with too many digits. -/
theorem Segment.parseAll_fails (path : String) (raws : List (List Char)) :
    (parseAll path raws).FailsOnly fun fault =>
      fault = .badNumeral ∨ ∃ code message, fault = .refused code message := by
  induction raws with
  | nil => simp [parseAll]
  | cons raw raws ih =>
    refine .bind ?_ fun segment _ => .bind ih fun segments _ => failsOnly_ok _
    unfold parse
    repeat' split
    all_goals simp

namespace Locate

variable {path : String}

theorem answered_child (path : String) (v : Value) (name : String) :
    (child path v name).Answered := by
  unfold child
  repeat' split
  all_goals simp

theorem answered_find (path : String) (v : Value) (l : Lookup) : (find path v l).Answered := by
  cases l with
  | name n => exact answered_child path v n
  | inside name accessor =>
    cases accessor with
    | key k => exact answered_child path v k
    | position i =>
      simp only [find, access]
      repeat' split
      all_goals simp

theorem answered_stepsOf {v : Value} {segment : Segment} (h : HoldsFields v)
    (hu : unshadowed path v (lookups segment) = true) : (stepsOf path v segment).Answered := by
  refine .bind (answered_child path v segment.name) fun first hfirst => ?_
  unfold lookups at hu
  cases haccessor : segment.accessor with
  | none => simp
  | some accessor =>
    rw [haccessor] at hu
    have hheld := ((unshadowed_cons (l := .name segment.name) hfirst).1 hu).1
    obtain ⟨w, hw⟩ := find_read (l := .name segment.name) h hheld hfirst
    simp only [hw, ok_bind]
    exact .bind (answered_find path w (.inside segment.name accessor)) fun _ _ => failsOnly_ok _

/-- Segments are followed or refused, if they go through what a standing value holds. -/
theorem answered_stepsFrom : ∀ {segments : List Segment} {v : Value}, (∃ shape, v.Stands shape) →
    unshadowed path v (segments.flatMap lookups) = true → (stepsFrom path v segments).Answered
  | [], _, _, _ => by simp [stepsFrom]
  | [segment], v, ⟨_, h⟩, hu => answered_stepsOf h.holdsFields (by simpa using hu)
  | segment :: next :: rest, v, ⟨shape, h⟩, hu => by
    rw [List.flatMap_cons] at hu
    have hsegment := unshadowed_of_append hu
    refine .bind (answered_stepsOf h.holdsFields hsegment) fun steps hsteps => ?_
    have hleads := stepsOf_ok.1 hsteps
    obtain ⟨w, hw, hstands⟩ := hleads.follow_stands ⟨shape, h⟩ (hleads.isHeld hsegment)
    rw [hw, ok_bind]
    exact .bind (answered_stepsFrom hstands (hleads.unshadowed_after hw hu)) fun _ _ =>
      failsOnly_ok _

end Locate

namespace Place

variable {story : Story} {place : Place} {path : String} {value old w : Value} {n : Number}

/-- Whether no index on a path has too many digits, as far as the path is read. -/
def legible (path : String) : Bool :=
  match Segment.split path.toList with
  | first :: second :: rest =>
    match Root.ofName? (String.ofList first), Segment.parseAll path (second :: rest) with
    | some _, .error .badNumeral => false
    | _, _ => true
  | _ => true

/-- A path through what is held is followed or refused just if it is legible. -/
theorem answered_resolve_iff (h : story.Stands) (hu : unshadowed story path = true) :
    (resolve story path).Answered ↔ legible path = true := by
  unfold resolve legible
  unfold unshadowed at hu
  rcases hsplit : Segment.split path.toList with _ | ⟨first, _ | ⟨second, rest⟩⟩
  · simp
  · simp
  cases hroot : Root.ofName? (String.ofList first) with
  | none => simp [hroot]
  | some root =>
    cases hparse : Segment.parseAll path (second :: rest) with
    | error fault =>
      rcases Segment.parseAll_fails path _ fault hparse with rfl | ⟨code, message, rfl⟩
      all_goals simp [hroot, hparse, bind, Except.bind]
    | ok segments =>
      simp only [hsplit, hroot, hparse, ok_bind] at hu ⊢
      refine iff_of_true (.bind ?_ fun steps _ => ?_) trivial
      · unfold Locate.locate
        split
        · simp
        · exact Locate.answered_stepsFrom (h.root root) hu
      · split <;> simp

end Place

/-! ### The assets on the way of a path -/

namespace Value

variable {ok : Kind → Bool} {kind : Kind} {slots : List (Slot × Value)}

theorem within_slots (hfits : SlotsFit kind slots)
    (hdeclared : ∀ f ∈ kind.fields, ∀ x, Table.get? (.field f.1.name) slots = some x →
      x.within ok = true)
    (hothers : ∀ slot x, Table.get? slot slots = some x → (∀ name, slot ≠ .field name) →
      x.isDocument = true) : ∀ e ∈ slots, e.2.within ok = true := by
  rintro ⟨slot, x⟩ he
  have hget := (Table.get?_eq_some_iff hfits.unique).2 he
  by_cases hslot : ∀ name, slot ≠ .field name
  · exact within_of_isPlain ok (isPlain_of_isDocument x (hothers slot x hget hslot))
  · simp only [not_forall, not_not] at hslot
    obtain ⟨name, rfl⟩ := hslot
    obtain ⟨f, hf, rfl⟩ := (hfits.declared name).1 (Table.mem_keys_of_get? hget)
    exact hdeclared f hf x hget

/-- What stands under a shape without certain kinds of entity is without them. -/
theorem Stands.within {shape : Shape} {v : Value} (h : Stands shape v)
    (hshape : shape.within ok = true) : v.within ok = true := by
  induction h with
  | document h => exact within_of_isPlain ok (isPlain_of_isDocument _ h)
  | list _ ih => exact within_list.2 fun x hx => ih x hx (by rwa [Shape.within] at hshape)
  | mapping _ _ ih => exact within_mapping.2 fun e he => ih e he (by rwa [Shape.within] at hshape)
  | optional _ ih => exact ih (by rwa [Shape.within] at hshape)
  | entity hkind hslots hdeclared hothers ih =>
    rw [Kind.shape, Shape.within, Bool.and_eq_true] at hshape
    exact within_entity.2 ⟨hshape.1, within_slots hslots
      (fun f hf x hx => ih f hf x hx (Shape.within_of_mem hshape.2 hf)) hothers⟩

theorem Stands.besideAssets {shape : Shape} {v : Value} (h : Stands shape v) : v.BesideAssets := by
  rintro slots rfl
  obtain ⟨-, hstanding⟩ := stands_entity.1 h
  have hall : ∀ f ∈ Fields.assets, f.2.within Kind.besideAssets = true := by decide
  exact within_slots hstanding.fits
    (fun f hf x hx => (hstanding.declared f hf x hx).within (hall f hf)) hstanding.others

end Value

/-! ### Assigning -/

/-- The only number that a guarded entity has among its fields is a balance. -/
theorem Kind.eq_denarii_of_number {kind : Kind} (hk : kind.guarded = true) :
    ∀ f ∈ kind.fields, f.2 = .number → kind = .ledgerEntry ∧ f.1.name = "denarii" := by
  cases kind <;> first
    | cases hk; done
    | simp [Kind.fields, Fields.ledgerEntry, Fields.assets, Shape.required, Shape.withDefault,
        Shape.ruled, Shape.many, Shape.nullable, Shape.plain]

namespace Assign

variable {w old value : Value} {step : Step} {shape : Shape} {a n : Number} {kind : Kind}
  {slots : List (Slot × Value)}

/-- What stands and does not guard its fields takes anything. -/
theorem assign_ok_of_unguarded (hs : step.isHeld = true) (hold : w.read step = .ok old)
    (hw : w.Stands shape) (h : ∀ kind slots, w = .entity kind slots → kind.guarded = false) :
    (assign w step value).2 = .ok () := by
  rcases Value.read_held hs hold with ⟨kind, slots, slot, rfl, rfl, -⟩ | ⟨es, k, rfl, rfl, -⟩ |
    ⟨xs, i, rfl, rfl, -⟩
  · have hk := h kind slots rfl
    have hnotes := (Value.stands_entity.1 hw).2.fits.notes
    cases slot with
    | extra name =>
      simp only [assign, toEntity, hk, Bool.false_eq_true, if_false]
      split <;> rfl
    | _ => simp [assign, toEntity, openField, hk, hnotes]
  · rfl
  · rfl

/-- A value that does not settle in an entity that stands is reported. -/
theorem settle_fails (h : Value.IsStanding kind slots) (slot : Slot) (value : Value) :
    (settle kind slots slot value).2.FailsOnly fun fault => ∃ report, fault = .invalid report := by
  simp only [settle, h.fits.notes, if_true]
  have hwhole := Schema.checkWhole_ne_overflow kind
    (Table.put slot value (slots.filter documented))
  generalize Schema.checkWhole kind _ = verdict at hwhole ⊢
  cases verdict with
  | overflow => exact absurd rfl hwhole
  | _ => simp [Verdict.map, Verdict.outcome]

/-- Nothing guards what stands somewhere, or it is a guarded entity of which a slot was read. -/
theorem unguarded_or_standing (hs : step.isHeld = true) (hold : w.read step = .ok old)
    (hw : w.Stands shape) :
    (∀ kind slots, w = .entity kind slots → kind.guarded = false) ∨
      ∃ kind slots slot, w = .entity kind slots ∧ kind.guarded = true ∧ step = .slot slot ∧
        Table.get? slot slots = some old ∧ Value.IsStanding kind slots := by
  by_cases hguarded : ∀ kind slots, w = .entity kind slots → kind.guarded = false
  · exact .inl hguarded
  simp only [not_forall, Bool.not_eq_false] at hguarded
  obtain ⟨kind, slots, rfl, hkind⟩ := hguarded
  rcases Value.read_held hs hold with ⟨_, _, slot, heq, rfl, hget⟩ | ⟨_, _, ⟨⟩, -⟩ | ⟨_, _, ⟨⟩, -⟩
  obtain ⟨rfl, rfl⟩ := Value.entity.inj heq
  exact .inr ⟨kind, slots, slot, rfl, hkind, rfl, hget, (Value.stands_entity.1 hw).2⟩

/-- A document without numbers that are too large is taken, or what is wrong with it is reported. -/
theorem assign_fails (hs : step.isHeld = true) (hold : w.read step = .ok old) (hw : w.Stands shape)
    (hv : value.isModerate = true) :
    (assign w step value).2.FailsOnly fun fault => ∃ report, fault = .invalid report := by
  rcases unguarded_or_standing hs hold hw with hguarded |
    ⟨kind, slots, slot, rfl, hkind, rfl, hget, hstanding⟩
  · rw [assign_ok_of_unguarded hs hold hw hguarded]
    exact failsOnly_ok _
  cases slot with
  | attached name => exact failsOnly_ok _
  | given => exact failsOnly_ok _
  | extra name =>
    simp only [assign, toEntity]
    split
    · exact failsOnly_ok _
    · exact settle_fails hstanding _ value
  | field name =>
    obtain ⟨f, hf, rfl⟩ :=
      (hstanding.fits.declared name).1 (Table.mem_keys_of_get? hget)
    have hfield := (Schema.inOrder_kind hstanding.inStory).find? hf
    simp only [assign, toEntity, hkind, if_true, guardedField]
    rw [show kind.field? f.1.name = some f from hfield]
    simp only
    split
    · exact settle_fails hstanding _ _
    · simp
    · rename_i hoverflow
      rw [Verdict.under_eq_overflow, Verdict.andThen_eq_overflow] at hoverflow
      rcases hoverflow with hread | ⟨u, hu, hcheck⟩
      · exact absurd hread (Schema.validate_ne_overflow f.2 (.inr hv))
      · refine absurd hcheck (Schema.check_ne_overflow (.inr ?_))
        rintro n rfl
        exact Schema.fits_of_validate hv f.2 hu

/-- A number in the place of a number is taken, if it is no balance. -/
theorem assign_number_ok (hs : step.isHeld = true) (hold : w.read step = .ok (.number a))
    (hw : w.Stands shape)
    (hassets : ∀ slots, w = .entity .assets slots → Ledger.flaw? w = .ok none)
    (hplace : ∀ slots, w = .entity .ledgerEntry slots → step ≠ .slot (.field "denarii")) :
    (assign w step (.number n)).2 = .ok () := by
  rcases unguarded_or_standing hs hold hw with hguarded |
    ⟨kind, slots, slot, rfl, hkind, rfl, hget, hstanding⟩
  · exact assign_ok_of_unguarded hs hold hw hguarded
  cases slot with
  | attached name => rfl
  | given => rfl
  | extra name =>
    simp only [assign, toEntity]
    split
    · rfl
    · have hflaw : kind = .assets →
          Ledger.flaw? (.entity kind (slots.filter documented)) = .ok none := by
        rintro rfl
        have hledger : Table.get? (.field "cash_ledger") (slots.filter documented) =
            Table.get? (.field "cash_ledger") slots := Table.get?_filter (fun _ => rfl) slots
        rw [← hassets slots rfl]
        simp only [Ledger.flaw?, Value.get, Value.field?, hledger]
      simp only [settle, hstanding.fits.notes, if_true, checkWhole_put_extra hflaw]
      rfl
  | field name =>
    obtain ⟨f, hf, rfl⟩ :=
      (hstanding.fits.declared name).1 (Table.mem_keys_of_get? hget)
    have hnumber := hstanding.fits.guards hkind f hf a hget
    obtain ⟨rfl, hname⟩ := Kind.eq_denarii_of_number hkind f hf hnumber
    rw [hname] at hplace
    exact absurd rfl (hplace slots rfl)

end Assign

/-! ### Writing at a place -/

namespace Place

variable {story : Story} {place : Place} {value old : Value} {a n : Number}

/-- Whether a place is the balance of an entry of the cash ledger. -/
def IsBalance (story : Story) (place : Place) : Prop :=
  place.last = .slot (.field "denarii") ∧
    ∃ slots, place.container story = .ok (.entity .ledgerEntry slots)

/-- Nothing outside the assets guards its fields. -/
theorem unguarded_container (h : story.Apart) (hroot : place.root ≠ .assets) {kind : Kind}
    {slots : List (Slot × Value)} (hw : place.container story = .ok (.entity kind slots)) :
    kind.guarded = false := by
  have hkind := (Value.within_entity.1 (within_container h hroot hw)).1
  rw [Kind.elsewhere, Bool.and_eq_true, Bool.not_eq_true'] at hkind
  exact hkind.1

variable (hs : ∀ s ∈ place.steps, s.isHeld = true)
include hs

theorem stands_container (h : story.Standing) {w : Value} (hw : place.container story = .ok w) :
    ∃ shape, w.Stands shape := by
  obtain ⟨shape, hroot⟩ := h.stands.root place.root
  exact hroot.follow (isHeld_iff.1 hs).1 hw

/-- What can be written is refused at most, if it is an item of a list, or outside the assets, or a
document without numbers that are too large. -/
theorem answered_write (h : story.Standing) (hold : place.read story = .ok old) (path : String)
    (hv : (∃ i, place.last = .item i) ∨ place.root ≠ .assets ∨
      value.isDocument = true ∧ value.isModerate = true) :
    (place.write story path value).2.Answered := by
  obtain ⟨w, hw, hread⟩ := read_ok.1 hold
  obtain ⟨shape, hstands⟩ := stands_container hs h hw
  have hlast := (isHeld_iff.1 hs).2
  rw [write, hw]
  simp only
  rcases hv with ⟨i, hitem⟩ | hroot | ⟨hd, hv⟩
  · rw [Assign.assign_ok_of_unguarded hlast hread hstands fun kind slots heq => by
      subst heq
      rw [hitem] at hread
      cases hread]
    exact failsOnly_ok _
  · rw [Assign.assign_ok_of_unguarded hlast hread hstands fun kind slots heq =>
      unguarded_container h.apart hroot (heq ▸ hw)]
    exact failsOnly_ok _
  · have hfails := Assign.assign_fails hlast hread hstands hv
    generalize (Assign.assign w place.last value).2 = outcome at hfails ⊢
    cases outcome with
    | ok u => exact failsOnly_ok _
    | error fault =>
      obtain ⟨report, rfl⟩ := failsOnly_error.1 hfails
      simp [Except.mapError, rejection, Value.holdsLongNumeral_of_isModerate value hd hv]

/-- A number can be written in the place of a number, or it is refused, unless it is to be a balance
and is too large for a float. -/
theorem answered_write_number (h : story.Standing) (hold : place.read story = .ok (.number a))
    (path : String) : (place.write story path (.number n)).2.Answered ↔
      (place.IsBalance story → n.fits = true) := by
  obtain ⟨w, hw, hread⟩ := read_ok.1 hold
  obtain ⟨shape, hstands⟩ := stands_container hs h hw
  obtain ⟨hbefore, hlast⟩ := isHeld_iff.1 hs
  rw [write, hw]
  simp only
  by_cases hbalance : place.IsBalance story
  · obtain ⟨hdenarii, slots, hslots⟩ := hbalance
    obtain rfl := Except.ok.inj (hw.symm.trans hslots)
    rw [hdenarii, Assign.assign_denarii]
    cases hcheck : Rule.checkBalance n with
    | accepted v =>
      have hsettle : (Assign.settle .ledgerEntry slots (.field "denarii") v).2 = .ok () := by
        rw [Assign.settle, if_pos (Value.stands_entity.1 hstands).2.fits.notes]
        rfl
      simp only [Verdict.under, hsettle]
      exact iff_of_true (failsOnly_ok _) fun _ => Rule.fits_iff_checkBalance.2 (by simp [hcheck])
    | rejected problems =>
      have hfits : n.fits = true := Rule.fits_iff_checkBalance.2 (by simp [hcheck])
      refine iff_of_true ?_ fun _ => hfits
      simp [Verdict.under, Except.mapError, rejection, Value.holdsLongNumeral_of_fits hfits]
    | overflow =>
      refine iff_of_false (by simp [Verdict.under, Except.mapError, rejection]) fun hfits => ?_
      exact Rule.fits_iff_checkBalance.1 (hfits ⟨hdenarii, slots, hw⟩) hcheck
  · have hok := @Assign.assign_number_ok w place.last shape a n hlast hread hstands
      (fun slots heq => by
        subst heq
        exact flaw?_container h.apart h.sound (h.stands.root .assets).choose_spec.besideAssets
          hbefore hw)
      (fun slots heq hdenarii => hbalance ⟨hdenarii, slots, heq ▸ hw⟩)
    rw [hok]
    exact iff_of_true (failsOnly_ok _) fun hb => absurd hb hbalance

end Place

end StoryWorld
