import StoryWorld.Proofs.Setting

/-!
Stories as they are once they were read, and a number put in the place of a number.

In a settled story every entity is in order, nothing that guards its fields stands outside the
assets, the cash ledger is sound, and no assets stand inside the assets. A number that takes the
place of a number along parts of the document leaves a story settled: it is no entity, no ledger and
no holder of an entry, so nothing that the check of the ledger looks at can be in its place.
-/

namespace StoryWorld

/-- Whether entities of a kind can stand inside the assets. -/
def Kind.besideAssets (kind : Kind) : Bool := kind != .assets

/-- Whether no assets stand inside the assets. -/
def Value.BesideAssets (assets : Value) : Prop := ∀ slots, assets = .entity .assets slots →
  ∀ e ∈ slots, e.2.within Kind.besideAssets = true

/-! ### The holders in the ledger -/

namespace Value

variable {v e : Value} {s : Step} {steps rest : List Step} {n m : Number}

/-- Those who have an entry in the cash ledger of assets, in its order. -/
def holders (assets : Value) : List String :=
  ((assets.field "cash_ledger").items.filterMap holding?).map Holding.holder

/-- A value that is neither an entity nor a mapping nor a list has no parts. -/
theorem follow_single {w : Value} (hentity : ∀ kind slots, v ≠ entity kind slots)
    (hmapping : ∀ es, v ≠ mapping es) (hlist : ∀ xs, v ≠ list xs)
    (hd : ∀ s ∈ steps, s.isDocumented = true) (h : v.follow steps = .ok w) : steps = [] := by
  cases steps with
  | nil => rfl
  | cons s rest =>
    obtain ⟨x, hx, -⟩ := follow_cons.1 h
    rcases read_documented (hd s List.mem_cons_self) hx with ⟨kind, slots, _, hv, -⟩ |
      ⟨es, _, hv, -⟩ | ⟨xs, _, hv, -⟩
    · exact absurd hv (hentity kind slots)
    · exact absurd hv (hmapping es)
    · exact absurd hv (hlist xs)

theorem follow_number {w : Value} (hd : ∀ s ∈ steps, s.isDocumented = true)
    (h : (number n).follow steps = .ok w) : steps = [] :=
  follow_single (by simp) (by simp) (by simp) hd h

theorem follow_text {t : String} {w : Value} (hd : ∀ s ∈ steps, s.isDocumented = true)
    (h : (text t).follow steps = .ok w) : steps = [] :=
  follow_single (by simp) (by simp) (by simp) hd h

/-- Two numbers, or two lists. -/
inductive Alike : Value → Value → Prop
  | number (n m : Number) : Alike (number n) (number m)
  | list (xs ys : List Value) : Alike (list xs) (list ys)

/-- A number in the place of a number inside an entry, or a list in the place of a list, leaves the
entry with its holder. -/
theorem holder_replace {g : Holding} {old new : Value} (he : e.holding? = some g)
    (hd : ∀ s ∈ steps, s.isDocumented = true) (h : e.follow steps = .ok old)
    (hlike : old.Alike new) :
    (e.replace steps new).holding?.map Holding.holder = some g.holder := by
  obtain ⟨slots, rfl, hholder, hbalance⟩ := holding?_eq.1 he
  cases steps with
  | nil =>
    cases h
    cases hlike
  | cons s rest =>
    rw [List.forall_mem_cons] at hd
    obtain ⟨x, hx, hrest⟩ := follow_cons.1 h
    obtain ⟨slot, rfl, hget⟩ := read_entity hd.1 hx
    rw [replace_cons hd.1 hx]
    by_cases hslot : slot = .field "holder"
    · subst hslot
      obtain rfl := Option.some.inj (hholder.symm.trans hget)
      obtain rfl := follow_text hd.2 hrest
      cases hrest
      cases hlike
    by_cases hslot' : slot = .field "denarii"
    · subst hslot'
      obtain rfl := Option.some.inj (hbalance.symm.trans hget)
      obtain rfl := follow_number hd.2 hrest
      cases hrest
      cases hlike with
      | number n m =>
        rw [put, replace, Part.holding?_put_denarii he]
        rfl
    · have hkeep : (put (entity .ledgerEntry slots) (.slot slot)
          (x.replace rest new)).holding? = some g := by
        refine holding?_eq.2 ⟨_, rfl, ?_, ?_⟩
        · rw [Table.get?_put_of_ne (Ne.symm hslot), hholder]
        · rw [Table.get?_put_of_ne (Ne.symm hslot'), hbalance]
      rw [hkeep]
      rfl

/-- A number in the place of a number leaves assets with the holders in their ledger, and so does a
list in the place of a list that is not the ledger. -/
theorem holders_replace {old new : Value} (hv : v.IsAssets)
    (hd : ∀ s ∈ steps, s.isDocumented = true) (h : v.follow steps = .ok old)
    (hlike : old.Alike new) (hledger : steps ≠ [.slot (.field "cash_ledger")]) :
    (v.replace steps new).holders = v.holders := by
  obtain ⟨slots, ledger, rfl, hget', entries, rfl, hentries⟩ := hv
  cases steps with
  | nil =>
    cases h
    cases hlike
  | cons s rest =>
    rw [List.forall_mem_cons] at hd
    obtain ⟨x, hx, hrest⟩ := follow_cons.1 h
    obtain ⟨slot, rfl, hget⟩ := read_entity hd.1 hx
    rw [replace_cons hd.1 hx]
    by_cases hslot : slot = .field "cash_ledger"
    · subst hslot
      obtain rfl := Option.some.inj (hget'.symm.trans hget)
      cases rest with
      | nil => exact absurd rfl hledger
      | cons t rest =>
        rw [List.forall_mem_cons] at hd
        obtain ⟨e, he, hfollow⟩ := follow_cons.1 hrest
        obtain ⟨i, rfl, hi⟩ := read_list hd.2.1 he
        obtain ⟨g, hg, -⟩ := hentries e (List.mem_of_getElem? hi)
        have hsame := holder_replace hg hd.2.2 hfollow hlike
        have hmap : ∀ zs : List Value, (zs.filterMap holding?).map Holding.holder =
            (zs.map fun z => z.holding?.map Holding.holder).filterMap id := by
          intro zs
          rw [List.filterMap_map, List.map_filterMap]
          rfl
        have hset := map_set_eq (f := fun z => z.holding?.map Holding.holder) hi
          (hsame.trans (congrArg (Option.map Holding.holder) hg).symm)
        rw [replace_cons hd.2.1 he]
        simp only [put, holders, field, field?, Table.get?_put_self, hget', Option.getD_some,
          items, hmap, hset]
    · simp only [put, holders, field, field?, Table.get?_put_of_ne (Ne.symm hslot)]

/-- What takes the place of a part of an entity can keep its slots free of some kinds. -/
theorem within_replace_slots {ok : Kind → Bool} {kind : Kind} {slots slots' : List (Slot × Value)}
    {old new : Value} (hall : ∀ e ∈ slots, e.2.within ok = true)
    (hd : ∀ s ∈ steps, s.isDocumented = true) (h : (entity kind slots).follow steps = .ok old)
    (hnew : new.within ok = true) (hslots : (entity kind slots).replace steps new =
      entity kind slots') (hsteps : steps ≠ []) : ∀ e ∈ slots', e.2.within ok = true := by
  cases steps with
  | nil => exact absurd rfl hsteps
  | cons s rest =>
    rw [List.forall_mem_cons] at hd
    obtain ⟨x, hx, -⟩ := follow_cons.1 h
    obtain ⟨slot, rfl, hget⟩ := read_entity hd.1 hx
    rw [replace_cons hd.1 hx] at hslots
    cases hslots
    exact within_put_table hall (within_replace (hall _ (Table.mem_of_get? hget)) hnew)

end Value

namespace Ledger

/-- Entries in order of different holders pass the check. -/
theorem flawAfter?_of_nodup : ∀ {seen entries : List Value}, (∀ e ∈ entries, e.IsEntry) →
    ((entries.filterMap Value.holding?).map Holding.holder).Nodup →
    (∀ h ∈ (entries.filterMap Value.holding?).map Holding.holder,
      seen.any ((Value.text h).equal ·) = false) → flawAfter? seen entries = .ok none
  | seen, [], _, _, _ => rfl
  | seen, entry :: rest, he, hnodup, hfresh => by
    rw [List.forall_mem_cons] at he
    obtain ⟨g, hg, -⟩ := he.1
    obtain ⟨hkind, hget⟩ := Value.get_of_holding hg
    rw [List.filterMap_cons, hg] at hnodup hfresh
    simp only [List.map_cons, List.nodup_cons, List.forall_mem_cons] at hnodup hfresh
    rw [flawAfter?, hkind, hget]
    simp only [Outcome.ok_bind, Bool.not_true, Bool.false_eq_true, if_false, Value.isKey, hfresh.1]
    refine flawAfter?_of_nodup he.2 hnodup.2 fun h hmem => ?_
    have hne : (Value.text h).equal (.text g.holder) = false := by
      have : h ≠ g.holder := fun heq => hnodup.1 (heq ▸ hmem)
      simpa [Value.equal] using this
    rw [List.any_append, hfresh.2 h hmem, Bool.false_or, List.any_cons, hne]
    rfl

/-- The check of a sound ledger finds no flaw. -/
theorem flaw?_of_sound {story : Story} (h : story.Sound) : flaw? story.assets = .ok none := by
  obtain ⟨slots, hslots, hget, he⟩ := Story.ledger_of_assets h.entries
  have hcheck := @flawAfter?_of_nodup [] _ he h.unique (by simp)
  simpa [flaw?, hslots, Value.get, Value.field?, hget, Value.iterate, Outcome.ok_bind] using hcheck

end Ledger

/-! ### Settled stories -/

namespace Story

/-- A story as it is once it was read. -/
structure Settled (story : Story) : Prop where
  orderly : story.toEntity.Orderly
  apart : story.Apart
  sound : story.Sound
  within : story.assets.BesideAssets

/-- What a field holds once it was read has entities of the kinds of its shape only. -/
theorem within_of_held {ok : Kind → Bool} {shape : Shape} {v : Value}
    (hshape : shape.within ok = true) (h : Schema.Held shape v) : v.within ok = true := by
  rcases h with ⟨d, hd, hread⟩ | ⟨-, rfl⟩
  · exact Schema.within_validate shape hshape
      (Value.within_of_isPlain ok (Value.isPlain_of_isDocument d hd)) hread
  · rfl

/-- A story that was read is settled. -/
theorem settled_of_read {document : Value} {story : Story} (hd : document.isDocument = true)
    (h : read document = .ok story) : story.Settled where
  orderly := orderly_of_read hd h
  apart := apart_of_read (Value.isPlain_of_isDocument document hd) h
  sound := sound_of_read h
  within slots hslots := by
    obtain ⟨assets, hassets, hheld⟩ :=
      @Schema.get_of_held .worldState "assets" _ _ rfl rfl (held_of_read hd h)
    obtain rfl : story.assets = assets := Except.ok.inj hassets
    obtain ⟨value, extra, hentity, heq, -⟩ :=
      Schema.heldEntity_of_validate Schema.inOrder_assets rfl hheld
    rw [hslots] at heq
    obtain ⟨-, rfl⟩ := Value.entity.inj heq
    rw [Schema.forall_declaredSlots (p := fun x => x.within Kind.besideAssets = true)]
    refine ⟨fun g hg => ?_, fun e he => ?_⟩
    · have hall : ∀ g ∈ Fields.assets, g.2.within Kind.besideAssets = true := by decide
      exact within_of_held (hall g hg) (hentity.held g hg).1
    · exact Value.within_of_isPlain _
        (Value.isPlain_of_isDocument _ (hentity.documents e he))

end Story

namespace Place

variable {story : Story} {place : Place} {a n : Number}

/-- The only entity of the kind of the assets that a path into them goes through is the root. -/
theorem eq_assets_of_container (h : story.assets.IsAssets) (hwithin : story.assets.BesideAssets)
    (hroot : place.root = .assets) (hs : ∀ s ∈ place.before, s.isHeld = true)
    {slots : List (Slot × Value)} (hw : place.container story = .ok (.entity .assets slots)) :
    story.assets = .entity .assets slots := by
  obtain ⟨assets, hassets, -⟩ := Story.ledger_of_assets h
  rw [container, hroot] at hw
  cases hbefore : place.before with
  | nil =>
    rw [hbefore] at hw
    exact Except.ok.inj hw
  | cons s rest =>
    rw [hbefore] at hw hs
    obtain ⟨x, hx, hrest⟩ := Value.follow_cons.1 hw
    have hread : (Value.entity .assets assets).read s = .ok x := hassets ▸ hx
    rcases Value.read_held (hs s List.mem_cons_self) hread with ⟨_, _, slot, heq, rfl, hget⟩ |
      ⟨_, _, ⟨⟩, -⟩ | ⟨_, _, ⟨⟩, -⟩
    obtain ⟨rfl, rfl⟩ := Value.entity.inj heq
    have hinside := Value.within_follow (hwithin assets hassets _ (Table.mem_of_get? hget)) hrest
    exact absurd (Value.within_entity.1 hinside).1 (by decide)

/-- The only assets on the way to a place are those of the story, and they are sound. -/
theorem flaw?_container (hapart : story.Apart) (hsound : story.Sound)
    (hwithin : story.assets.BesideAssets) (hs : ∀ s ∈ place.before, s.isHeld = true)
    {slots : List (Slot × Value)} (hw : place.container story = .ok (.entity .assets slots)) :
    Ledger.flaw? (.entity .assets slots) = .ok none := by
  by_cases hroot : place.root = .assets
  · rw [← eq_assets_of_container hsound.entries hwithin hroot hs hw]
    exact Ledger.flaw?_of_sound hsound
  · exact absurd (Value.within_entity.1 (within_container hapart hroot hw)).1 (by decide)

/-- A number in the place of a number leaves a story settled, if it leaves the entries of the ledger
in order. -/
theorem settled_put (h : story.Settled) (hd : place.isDocumented = true)
    (hold : place.read story = .ok (.number a))
    (hassets : (place.put story (.number n)).assets.IsAssets) :
    (place.put story (.number n)).Settled := by
  by_cases hroot : place.root = .assets
  · have hfollow : story.assets.follow place.steps = .ok (.number a) := by
      rw [read_eq, hroot] at hold
      exact hold
    have hput : (place.put story (.number n)).assets =
        story.assets.replace place.steps (.number n) := by
      rw [put, hroot]
      rfl
    have hsteps := isDocumented_iff.1 hd
    have hledger : place.steps ≠ [.slot (.field "cash_ledger")] := by
      obtain ⟨slots, ledger, heq, hget, entries, rfl, -⟩ := h.sound.entries
      intro hledger
      rw [hledger, heq] at hfollow
      simp [Value.follow, Value.read, hget, bind, Except.bind] at hfollow
    refine ⟨orderly_put h.orderly hd hold (.number n), ?_, ⟨hassets, ?_⟩, fun slots hslots => ?_⟩
    · rw [put, hroot]
      exact h.apart.setRoot fun hne => absurd rfl hne
    · show (place.put story (.number n)).assets.holders.Nodup
      rw [hput, Value.holders_replace h.sound.entries hsteps hfollow (.number a n) hledger]
      exact h.sound.unique
    · obtain ⟨assets, heq, -⟩ := Story.ledger_of_assets h.sound.entries
      rw [hput, heq] at hslots
      exact Value.within_replace_slots (h.within assets heq) hsteps (heq ▸ hfollow) rfl hslots
        (List.append_ne_nil_of_right_ne_nil _ (List.cons_ne_nil _ _))
  · have hsame : (place.put story (.number n)).assets = story.assets :=
      Story.root_setRoot_of_ne story (Ne.symm hroot) _
    refine ⟨orderly_put h.orderly hd hold (.number n), apart_put h.apart hroot rfl,
      ⟨hassets, ?_⟩, by rw [hsame]; exact h.within⟩
    show (place.put story (.number n)).assets.holders.Nodup
    rw [hsame]
    exact h.sound.unique

end Place

end StoryWorld
