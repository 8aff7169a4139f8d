import StoryWorld.Proofs.Atomic

/-!
What a failed write leaves behind.

A write is made in place, without a rehearsal. It changes nothing as long as it fails before the
value is where it belongs, and almost everything that can go wrong goes wrong before that: the path
leads nowhere, the entity has no such place, the value cannot be read as what the field holds. Only
assets look again once the value is in place, at the ledger as a whole, and an entity that has lost
the set of the fields that it was given fails to note the field. A value that gets that far and no
further stays.
-/

namespace StoryWorld

namespace Assign

variable {kind : Kind} {slots : List (Slot × Value)} {step : Step} {slot : Slot} {value v : Value}
  {fault : Fault}

/-- The slot that an assignment to a guarded entity fills before the entity is checked as a whole,
with the value as it is read for it. There is none if the value does not get that far, or if nothing
is checked once it has. -/
def filled? (kind : Kind) (step : Step) (value : Value) : Option (Slot × Value) :=
  match step with
  | .slot (.field name) =>
    match kind.field? name with
    | none => none
    | some (field, shape) =>
      match (Schema.validate shape value).andThen field.rule.check with
      | .accepted v => some (.field name, v)
      | _ => none
  | .slot (.extra name) => if isPrivate name then none else some (.extra name, value)
  | .builtin name =>
    match kind.member? name with
    | some member =>
      if (member.slot? name).isSome && !isPrivate name then some (.extra name, value) else none
    | none => none
  | _ => none

/-- What is assigned to a built-in name that has a slot for it goes there, or is settled as an extra
field. -/
theorem toBuiltin_of_slot? {name : String} {member : Member} (hm : kind.member? name = some member)
    (hslot : member.slot? name = some slot) :
    toBuiltin kind slots name value =
      if kind.guarded && !isPrivate name then settle kind slots (.extra name) value
      else (.entity kind (Table.put slot value slots), .ok ()) := by
  unfold toBuiltin
  split
  · next hown =>
    obtain rfl := Option.some.inj (hm.symm.trans hown)
    cases hslot
  · next other hother =>
    obtain rfl := Option.some.inj (hm.symm.trans hother)
    rw [hslot]
  · next hnone => rw [hm] at hnone; cases hnone

/-- What is assigned to one that has none fails, or replaces what the entity holds. -/
theorem toBuiltin_of_not_slot? {name : String} {member : Member}
    (hm : kind.member? name = some member) (hslot : member.slot? name = none)
    (h : (toBuiltin kind slots name value).2 = .error fault) :
    (toBuiltin kind slots name value).1 = .entity kind slots := by
  unfold toBuiltin at h ⊢
  split
  · next hown =>
    simp only [hown, replaceOwn] at h ⊢
    split
    · cases h
    · rfl
  · next other hother =>
    obtain rfl := Option.some.inj (hm.symm.trans hother)
    rw [hslot]
  · rfl

/-- An assignment that fills a slot first is decided by the check of the entity as a whole. -/
theorem toEntity_of_filled (hk : kind.guarded = true)
    (h : filled? kind step value = some (slot, v)) :
    toEntity kind slots step value = settle kind slots slot v := by
  unfold filled? at h
  split at h
  · next name =>
    split at h
    · cases h
    · next field shape hf =>
      split at h
      · next w hw =>
        cases h
        simp only [toEntity, hk, if_true, guardedField, hf, hw, Verdict.under]
      · cases h
  · next name =>
    split at h
    · cases h
    · next hp =>
      cases h
      simp only [toEntity, hk, if_true, if_neg hp]
  · next name =>
    split at h
    · next member hm =>
      split at h
      · next hboth =>
        cases h
        rw [Bool.and_eq_true, Bool.not_eq_true'] at hboth
        obtain ⟨beside, hbeside⟩ := Option.isSome_iff_exists.1 hboth.1
        simp [toEntity, toBuiltin_of_slot? hm hbeside, hk, hboth.2]
      · cases h
    · cases h
  · cases h

/-- An assignment that fails before it fills a slot leaves the entity as it was. -/
theorem toEntity_of_not_filled (hk : kind.guarded = true) (h : filled? kind step value = none)
    (herror : (toEntity kind slots step value).2 = .error fault) :
    (toEntity kind slots step value).1 = .entity kind slots := by
  unfold filled? at h
  unfold toEntity at herror ⊢
  split
  · next name =>
    simp only [hk, if_true, guardedField] at h herror ⊢
    cases hf : kind.field? name with
    | none => rfl
    | some declared =>
      simp only [hf] at h herror ⊢
      cases hv : (Schema.validate declared.2 value).andThen declared.1.rule.check with
      | accepted w => simp [hv] at h
      | rejected problems => rfl
      | overflow => rfl
  · next name =>
    have hp : isPrivate name = true := by simpa using h
    simp [hp] at herror
  · next slot hfield hextra =>
    cases slot with
    | field name => exact absurd rfl (hfield name)
    | extra name => exact absurd rfl (hextra name)
    | _ => cases herror
  · next name =>
    simp only at h herror ⊢
    cases hm : kind.member? name with
    | none => simp [toBuiltin, hm]
    | some member =>
      cases hbeside : member.slot? name with
      | some beside =>
        have hp : isPrivate name = true := by simpa [hm, hbeside] using h
        simp [toBuiltin_of_slot? hm hbeside, hp] at herror
      | none => exact toBuiltin_of_not_slot? hm hbeside herror
  · rfl

/-- What is left of an entity by an assignment that fails only once the value is in place: when the
assets are checked as a whole, or when an entity that guards nothing notes the field. There is none
if the assignment cannot come to that. -/
def lingers? (kind : Kind) (slots : List (Slot × Value)) (step : Step) (value : Value) :
    Option Value :=
  if kind = .assets ∧ notes slots = true then
    (filled? kind step value).map fun e =>
      .entity kind (Table.put e.1 e.2 (slots.filter documented))
  else if unnoted (.entity kind slots) step then some ((Value.entity kind slots).put step value)
  else none

/-- An assignment that comes to that leaves it, whatever is found then. -/
theorem toEntity_of_lingers {left : Value} (h : lingers? kind slots step value = some left) :
    (toEntity kind slots step value).1 = left := by
  unfold lingers? at h
  split at h
  · next hassets =>
    obtain ⟨rfl, hn⟩ := hassets
    obtain ⟨⟨slot, v⟩, hfilled, rfl⟩ := Option.map_eq_some_iff.1 h
    rw [toEntity_of_filled rfl hfilled, settle, if_pos hn]
  · split at h
    · next hunnoted =>
      cases h
      unfold unnoted at hunnoted
      split at hunnoted
      · next heq =>
        cases heq
        rw [Bool.and_eq_true, Bool.not_eq_true'] at hunnoted
        simp only [toEntity, hunnoted.1, Bool.false_eq_true, if_false]
        rfl
      · cases hunnoted
    · cases h

/-- One that fails before leaves the entity as it was. -/
theorem toEntity_of_not_lingers (h : lingers? kind slots step value = none)
    (herror : (toEntity kind slots step value).2 = .error fault) :
    (toEntity kind slots step value).1 = .entity kind slots := by
  unfold lingers? at h
  split at h
  · next hassets =>
    obtain ⟨rfl, -⟩ := hassets
    exact toEntity_of_not_filled rfl (Option.map_eq_none_iff.1 h) herror
  · next hassets =>
    split at h
    · cases h
    · next hunnoted =>
      refine @assign_error value (.entity kind slots) step fault ?_ (by simpa using hunnoted) herror
      rintro slots' heq
      cases heq
      simpa using hassets

end Assign

namespace Place

variable {story kept : Story} {place : Place} {path : String} {value : Value} {fault : Fault}

/-- The story that a write at a place leaves behind if it fails only once the value is in place.
There is none if the write cannot come to that. -/
def lingering? (story : Story) (place : Place) (value : Value) : Option Story :=
  match place.container story with
  | .ok (.entity kind slots) =>
    (Assign.lingers? kind slots place.last value).map (place.setContainer story)
  | _ => none

/-- A write that comes to that leaves it, whatever is found then. -/
theorem write_of_lingering (h : place.lingering? story value = some kept) :
    (place.write story path value).1 = kept := by
  unfold lingering? at h
  split at h
  · next hw =>
    obtain ⟨left, hleft, rfl⟩ := Option.map_eq_some_iff.1 h
    simp only [write, hw, Assign.assign, Assign.toEntity_of_lingers hleft]
  · cases h

/-- A write that fails before changes nothing. -/
theorem write_of_not_lingering (h : place.lingering? story value = none)
    (herror : (place.write story path value).2 = .error fault) :
    (place.write story path value).1 = story := by
  refine write_error (fun w hw cause hcause => ?_) herror
  cases w with
  | entity kind slots =>
    simp only [lingering?, hw, Option.map_eq_none_iff] at h
    exact Assign.toEntity_of_not_lingers h hcause
  | _ => cases hcause

end Place

namespace Story

variable {story : Story} {path : String} {value : Value} {fault : Fault}

/-- A failed write leaves the story as it was just if nothing lingers that was not there before: the
path leads to no slot of the assets and to no field that cannot be noted as given, or the value is
refused for the slot before it gets there, or it is what the slot holds. -/
theorem writePath_error_iff (h : (story.writePath path value).2 = .error fault) :
    (story.writePath path value).1 = story ↔
      ∀ place kept, Place.resolve story path = .ok place →
        place.lingering? story value = some kept → kept = story := by
  unfold writePath at h ⊢
  cases hplace : Place.resolve story path with
  | error refusal => simp
  | ok place =>
    simp only [hplace] at h ⊢
    cases hkept : place.lingering? story value with
    | none =>
      refine iff_of_true (Place.write_of_not_lingering hkept h) ?_
      rintro _ kept ⟨⟩ hsome
      rw [hkept] at hsome
      cases hsome
    | some kept =>
      rw [Place.write_of_lingering hkept]
      constructor
      · rintro heq _ _ ⟨⟩ hsome
        exact (Option.some.inj (hkept.symm.trans hsome)).symm.trans heq
      · exact fun hall => hall place kept rfl hkept

/-- A balance below zero is refused before it is in the entry. -/
theorem writePath_error_balance : ∃ story, Story.read unguardedDocument = .ok story ∧
    (story.writePath "assets.cash_ledger[0].denarii" (.int (-7))).2 = refuse .typeMismatch
      ("Value -7 rejected at assets.cash_ledger[0].denarii: " ++
        "1 validation error for LedgerEntry") ∧
    (story.writePath "assets.cash_ledger[0].denarii" (.int (-7))).1 = story := by
  obtain ⟨story, hread, hrefused, hnone⟩ := Story.exists_read unguardedDocument (fun story =>
    (story.writePath "assets.cash_ledger[0].denarii" (.int (-7))).2 = refuse .typeMismatch
      ("Value -7 rejected at assets.cash_ledger[0].denarii: " ++
        "1 validation error for LedgerEntry") ∧
      ((Place.resolve story "assets.cash_ledger[0].denarii").toOption.bind
        (·.lingering? story (.int (-7)))).isNone = true) (by decide +kernel)
  refine ⟨story, hread, hrefused,
    (writePath_error_iff hrefused).2 fun place kept hplace hkept => ?_⟩
  simp [hplace, hkept, Except.toOption] at hnone

/-- A ledger with two entries of one holder is refused, and it is the ledger from then on. -/
theorem writePath_error_duplicate : ∃ story,
    Story.read (.mapping [("assets", .mapping [("cash_ledger", .list [])])]) = .ok story ∧
    let pair := Value.list [.mapping [("holder", .text "a")], .mapping [("holder", .text "a")]]
    story.holdings = [] ∧
      (story.writePath "assets.cash_ledger" pair).2 = refuse .typeMismatch
        ("Value [\x7b'holder': 'a'\x7d, \x7b'holder': 'a'\x7d] rejected at " ++
          "assets.cash_ledger: 1 validation error for Assets") ∧
      (story.writePath "assets.cash_ledger" pair).1.holdings.map Holding.holder = ["a", "a"] :=
  Story.exists_read (.mapping [("assets", .mapping [("cash_ledger", .list [])])]) (fun story =>
    let pair := Value.list [.mapping [("holder", .text "a")], .mapping [("holder", .text "a")]]
    story.holdings = [] ∧
      (story.writePath "assets.cash_ledger" pair).2 = refuse .typeMismatch
        ("Value [\x7b'holder': 'a'\x7d, \x7b'holder': 'a'\x7d] rejected at " ++
          "assets.cash_ledger: 1 validation error for Assets") ∧
      (story.writePath "assets.cash_ledger" pair).1.holdings.map Holding.holder = ["a", "a"])
    (by decide +kernel)

end Story

end StoryWorld
