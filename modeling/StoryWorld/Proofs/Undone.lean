import StoryWorld.Proofs.Accounts
import StoryWorld.Proofs.Strictness
import StoryWorld.Proofs.TidyAlong
import StoryWorld.Proofs.Ways

/-!
Removing what was appended.

An item that is appended to a list is the value of the delta, or the entity that the value is read
as. A removal with the same value reads it again, so that it compares the item with its like, and
takes it out again if no item before it is told equal to the value. The story is then the one before,
whatever path leads to the list. A NaN that came into the item when the value was read keeps it from
being found, since another is read for the removal. Where an item is told equal to the value, the
first such is taken out. The values of the deltas have no NaN of their own.
-/

namespace StoryWorld

namespace Value

variable {v w x : Value} {xs ys : List Value} {kind : Kind} {slots : List (Slot × Value)}

theorem orderly_list : (list xs).Orderly ↔ ∀ x ∈ xs, x.Orderly :=
  ⟨fun h => by cases h with | list h => exact h, .list⟩

/-- A value is equal to itself if no NaN is in it. -/
theorem equal_self_iff (v : Value) (htidy : v.Tidy) (horder : v.Orderly) :
    v.equal v = true ↔ ∀ n ∈ v.numbers, n.IsDefined := by
  induction v using induct with
  | null => simp [equal, numbers]
  | bool b => simp [equal, numbers]
  | text s => simp [equal, numbers]
  | number n => simp [equal, numbers, Number.equal_self_iff]
  | builtin b => cases horder
  | list xs ih =>
    have hitem := fun x hx => ih x hx (tidy_list.1 htidy x hx) (orderly_list.1 horder x hx)
    rw [equal_list_iff]
    simp only [mem_numbers_list, true_and]
    constructor
    · rintro h n ⟨x, hx, hn⟩
      obtain ⟨i, hi⟩ := List.mem_iff_getElem?.1 hx
      exact (hitem x hx).1 (h i x x hi hi) n hn
    · rintro h i x y hx hy
      obtain rfl := Option.some.inj (hx.symm.trans hy)
      have hmem := List.mem_of_getElem? hx
      exact (hitem x hmem).2 fun n hn => h n ⟨x, hmem, hn⟩
  | mapping es ih =>
    cases horder with
    | mapping horder =>
      rw [tidy_mapping] at htidy
      have hentry := fun e he => ih e he (htidy.2 e he) (horder e he)
      rw [equal_mapping_iff, Table.Matches.self_iff htidy.1]
      simp only [mem_numbers_mapping]
      constructor
      · rintro h n ⟨e, he, hn⟩
        exact (hentry e he).1 (h e he) n hn
      · exact fun h e he => (hentry e he).2 fun n hn => h n ⟨e, he, hn⟩
  | entity kind slots ih =>
    have hcounted : counted slots = slots := by
      rw [counted, List.filter_eq_self]
      rintro ⟨slot, x⟩ he
      have hslot : slot.isDocumented = true := horder.unattached slot (List.mem_map_of_mem he)
      cases slot <;> first | rfl | cases hslot
    cases horder with
    | entity hkeys horder =>
      rw [tidy_entity] at htidy
      have hslot := fun e he => ih e he (htidy.2.2 e he) (horder e he)
      rw [equal_entity_iff, hcounted, Table.Matches.self_iff htidy.2.1.unique]
      simp only [mem_numbers_entity, true_and]
      constructor
      · rintro h n ⟨e, he, hn⟩
        exact (hslot e he).1 (h e he) n hn
      · exact fun h e he => (hslot e he).2 fun n hn => h n ⟨e, he, hn⟩

/-! ### Comparing the items of a list with a value -/

/-- An entity is compared with what its kind is read from. -/
theorem strictEqual_read (h : Schema.validate kind.shape v = .accepted x) :
    (entity kind slots).strictEqual v = .ok ((entity kind slots).equal x) := by
  obtain ⟨es, _, _, rfl, -⟩ := Schema.record_accepted h
  simp [strictEqual, isBool, h]

/-- A comparison is answered unless it overflows to read what it compares with. -/
theorem strictEqual_answered
    (h : ∀ kind slots, x = entity kind slots → Schema.validate kind.shape v ≠ .overflow) :
    ∃ b, x.strictEqual v = .ok b := by
  unfold strictEqual
  split
  · exact ⟨false, rfl⟩
  · split
    · rename_i kind slots es _
      have hread := h kind slots rfl
      split
      · exact ⟨_, rfl⟩
      · exact ⟨false, rfl⟩
      · exact absurd ‹_› hread
    · exact ⟨_, rfl⟩

/-- An entity is told equal to nothing but what its kind is read from. -/
theorem accepted_of_strictEqual (hv : v.isDocument = true)
    (h : (entity kind slots).strictEqual v = .ok true) :
    ∃ w, Schema.validate kind.shape v = .accepted w := by
  cases v with
  | mapping es =>
    cases hread : Schema.validate kind.shape (mapping es) with
    | accepted w => exact ⟨w, rfl⟩
    | rejected problems => simp [strictEqual, isBool, hread] at h
    | overflow => simp [strictEqual, isBool, hread] at h
  | entity k slots => cases hv
  | builtin b => cases hv
  | _ => simp [strictEqual, isBool, equal] at h

theorem within_of_isDocument {ok : Kind → Bool} (h : v.isDocument = true) : v.within ok = true :=
  within_of_isPlain ok (isPlain_of_isDocument v h)

end Value

namespace Schema

open Value

variable {kind : Kind} {slots : List (Slot × Value)} {v x : Value}

/-- What was read as one shape is all of one kind, where it is an entity. -/
theorem entity_of_held : ∀ shape : Shape, Storable shape → Held shape (.entity kind slots) →
    Held shape x → x = .null ∨ ∃ slots', x = .entity kind slots'
  | .any, _, h, _ | .text, _, h, _ | .whole, _, h, _ | .real, _, h, _ | .truth, _, h, _
  | .number, _, h, _ | .choice _, _, h, _ => by cases isDocument_of_held rfl h
  | .list item, _, h, _ => by
    obtain ⟨_, heq, -⟩ := held_list h
    cases heq
  | .mapping item, _, h, _ => by
    obtain ⟨_, heq, -⟩ := held_mapping h
    cases heq
  | .optional inner, hs, h, hx => by
    by_cases hnull : x = .null
    · exact .inl hnull
    · exact entity_of_held inner hs (held_optional (by simp) h) (held_optional hnull hx)
  | .record kind' fields, ⟨hkind, _, hfields⟩, h, hx => by
    subst hfields
    obtain ⟨_, _, -, heq, -⟩ :=
      heldEntity_of_validate (inOrder_kind hkind) (unknown_of_inStory hkind) h
    obtain ⟨value, extra, -, rfl, -⟩ :=
      heldEntity_of_validate (inOrder_kind hkind) (unknown_of_inStory hkind) hx
    obtain rfl := (Value.entity.inj heq).1
    exact .inr ⟨_, rfl⟩

/-- Where an item of a list that was read is told equal to a document, the comparison with it is
answered for all items. -/
theorem answered_of_match {xs : List Value} (h : (Value.list xs).Loaded) (hx : x ∈ xs)
    (hv : v.isDocument = true) (hmatch : x.strictEqual v = .ok true) :
    ∀ y ∈ xs, ∃ b, y.strictEqual v = .ok b := by
  intro y hy
  refine strictEqual_answered fun kind slots heq => ?_
  subst heq
  obtain hd | ⟨shape, hshape, h⟩ := h
  · cases isDocument_list.1 hd _ hy
  obtain hd | ⟨item, ys, hitem, heq, hys⟩ | ⟨_, _, -, heq, -⟩ | ⟨kind', hkind, h⟩ :=
    forms_of_held shape hshape h
  · cases isDocument_list.1 hd _ hy
  · obtain rfl := Value.list.inj heq
    obtain rfl | ⟨slots', rfl⟩ := entity_of_held item hitem (hys _ hy) (hys x hx)
    · obtain rfl : v = .null := by
        rw [strictEqual_document rfl, Except.ok.injEq, Bool.and_eq_true] at hmatch
        cases v <;> first | rfl | simp [equal] at hmatch
      simp [Kind.shape, validate, Verdict.reject]
    · obtain ⟨w, hread⟩ := accepted_of_strictEqual hv hmatch
      simp [hread]
  · cases heq
  · obtain ⟨_, _, -, heq, -⟩ :=
      heldEntity_of_validate (inOrder_kind hkind) (unknown_of_inStory hkind) h
    cases heq

/-- Nothing that an entry of the cash ledger holds is an entity. -/
theorem elsewhere_of_entry (h : Held Kind.ledgerEntry.shape (.entity kind slots)) :
    ∀ e ∈ slots, e.2.within Kind.elsewhere = true := by
  obtain ⟨value, extra, hheld, heq, -⟩ := heldEntity_of_validate (inOrder_kind rfl) rfl h
  obtain ⟨-, rfl⟩ := Value.entity.inj heq
  have hsingle : ∀ f ∈ Fields.ledgerEntry, f.2.isSingle = true := by decide
  exact (forall_declaredSlots (p := fun x => x.within Kind.elsewhere = true)).2
    ⟨fun f hf => within_of_isDocument (isDocument_of_held (hsingle f hf) (hheld.held f hf).1),
      fun e he => within_of_isDocument (hheld.documents e he)⟩

/-- Outside the cash ledger nothing that the assets hold guards its fields. -/
theorem elsewhere_of_assets (h : Held Kind.assets.shape (.entity kind slots)) :
    ∀ e ∈ slots, e.1 = .field "cash_ledger" ∨ e.2.within Kind.elsewhere = true := by
  obtain ⟨value, extra, hheld, heq, -⟩ := heldEntity_of_validate inOrder_assets rfl h
  obtain ⟨-, rfl⟩ := Value.entity.inj heq
  have hfields : ∀ f ∈ Fields.assets, f.1.name = "cash_ledger" ∨
      f.2.within Kind.elsewhere = true := by decide
  intro e he
  rcases List.mem_append.1 he with he | he
  · obtain ⟨f, hf, rfl⟩ := List.mem_map.1 he
    exact (hfields f hf).imp (congrArg Slot.field) fun hwithin =>
      Story.within_of_held hwithin (hheld.held f hf).1
  · obtain ⟨d, hd, rfl⟩ := List.mem_map.1 he
    exact .inr (within_of_isDocument (hheld.documents d hd))

/-- No list in the assets but the cash ledger has items that guard their fields. -/
theorem ledger_or_elsewhere {steps : List Step} {xs : List Value}
    (h : Held Kind.assets.shape (.entity kind slots)) (hd : ∀ s ∈ steps, s.isDocumented = true)
    (hlist : (Value.entity kind slots).follow steps = .ok (.list xs)) :
    steps = [.slot (.field "cash_ledger")] ∨ ∀ y ∈ xs, y.within Kind.elsewhere = true := by
  cases steps with
  | nil => cases hlist
  | cons s rest =>
    rw [List.forall_mem_cons] at hd
    obtain ⟨x, hx, hrest⟩ := follow_cons.1 hlist
    obtain ⟨n, rfl, hget⟩ := read_entity hd.1 hx
    obtain rfl | hwithin := elsewhere_of_assets h _ (Table.mem_of_get? hget)
    · obtain ⟨ledger, hledger, hheld⟩ := @get_of_held .assets "cash_ledger" _ _ rfl rfl h
      obtain ⟨_, _, heq, hget'⟩ := get_ok.1 hledger
      obtain ⟨rfl, rfl⟩ := Value.entity.inj heq
      obtain rfl := Option.some.inj (hget'.symm.trans hget)
      obtain ⟨entries, rfl, hentries⟩ := held_list hheld
      cases rest with
      | nil => exact .inl rfl
      | cons t rest =>
        rw [List.forall_mem_cons] at hd
        obtain ⟨e, he, hinside⟩ := follow_cons.1 hrest
        obtain ⟨i, rfl, hi⟩ := read_list hd.2.1 he
        have hentry : Held Kind.ledgerEntry.shape e := hentries e (List.mem_of_getElem? hi)
        obtain ⟨value, extra, -, rfl, -⟩ := heldEntity_of_validate (inOrder_kind rfl) rfl hentry
        cases rest with
        | nil => cases hinside
        | cons u rest =>
          rw [List.forall_mem_cons] at hd
          obtain ⟨d, hread, hmore⟩ := follow_cons.1 hinside
          obtain ⟨m, rfl, hslot⟩ := read_entity hd.2.2.1 hread
          have hwithin := elsewhere_of_entry hentry _ (Table.mem_of_get? hslot)
          exact .inr (within_list.1 (within_follow hwithin hmore))
    · exact .inr (within_list.1 (within_follow hwithin hrest))

end Schema

/-! ### What appending does -/

/-- A ledger that passes the check has nothing but entries. -/
theorem Ledger.isEntity_of_flawAfter? : ∀ {seen entries : List Value},
    flawAfter? seen entries = .ok none → ∀ e ∈ entries, e.isEntity .ledgerEntry = true
  | _, [], _ => by simp
  | seen, entry :: rest, h => by
    rw [List.forall_mem_cons]
    rw [flawAfter?] at h
    cases hentry : entry.isEntity .ledgerEntry with
    | false => simp [hentry] at h
    | true =>
      simp only [hentry, Bool.not_true, Bool.false_eq_true, if_false] at h
      obtain ⟨holder, -, h⟩ := Outcome.bind_ok.1 h
      split at h
      · cases h
      · split at h
        · cases h
        · exact ⟨rfl, isEntity_of_flawAfter? h⟩

/-- What is put in the place of the cash ledger is in its field of the assets. -/
theorem Place.assets_put_ledger {story : Story} {place : Place} {kind : Kind}
    {slots : List (Slot × Value)} {old v : Value} (hroot : place.root = .assets)
    (hsteps : place.steps = [.slot (.field "cash_ledger")])
    (hassets : story.assets = .entity kind slots)
    (hget : Table.get? (.field "cash_ledger") slots = some old) :
    (place.put story v).assets = .entity kind (Table.put (.field "cash_ledger") v slots) := by
  have hput : (place.put story v).assets = story.assets.replace place.steps v := by
    rw [put, hroot]
    rfl
  rw [hput, hsteps, hassets, Value.replace_cons rfl (Value.read_slot.2 hget)]
  rfl

namespace Delta

variable {document item : Value} {story after : Story} {d e : Delta} {place direct : Place}
  {xs ys : List Value}

/-- The item that appending adds is the value of the delta, or the entity that it is read as. -/
theorem newItem_ok (htidy : story.toEntity.Tidy) (hd : d.value.isDocument = true)
    (h : newItem story place d = .ok item) : item = d.value ∨ ∃ kind slots, kind.inStory = true ∧
      item = .entity kind slots ∧ Schema.validate kind.shape d.value = .accepted item := by
  unfold newItem at h
  split at h
  · rename_i kind hitem
    have hkind := Place.inStory_of_itemKind? htidy hitem
    have hread : Schema.validate kind.shape d.value = .accepted item := by
      unfold fit at h
      split at h
      · cases h
      · exact Verdict.outcome_ok.1 h
    obtain ⟨value, extra, -, heq, -⟩ := Schema.heldEntity_of_validate (Schema.inOrder_kind hkind)
      (Schema.unknown_of_inStory hkind) (.inl ⟨d.value, hd, hread⟩)
    exact .inr ⟨kind, _, hkind, heq, hread⟩
  · exact .inl (Except.ok.inj h).symm

theorem orderly_newItem (htidy : story.toEntity.Tidy) (hd : d.value.isDocument = true)
    (h : newItem story place d = .ok item) : item.Orderly := by
  obtain rfl | ⟨kind, slots, hkind, -, hread⟩ := newItem_ok htidy hd h
  · exact Value.orderly_of_isDocument _ hd
  · exact Schema.orderly_closed.of_kind hkind (.inl ⟨d.value, hd, hread⟩)

/-- To compare the item with the value that it came from is to compare it with itself. -/
theorem strictEqual_newItem (htidy : story.toEntity.Tidy) (hd : d.value.isDocument = true)
    (h : newItem story place d = .ok item) :
    item.strictEqual d.value = .ok (item.equal item) := by
  obtain rfl | ⟨kind, slots, -, rfl, hread⟩ := newItem_ok htidy hd h
  · rw [Value.strictEqual_document hd]
    simp
  · rw [Value.strictEqual_read hread]

/-- An append that is made puts its item at the end of the list, and leaves the ledger without
flaws. -/
theorem perform_append (hop : d.op = .append)
    (hplace : Place.resolve story d.path = .ok place) (hlist : place.read story = .ok (.list xs))
    (h : perform story d = (after, .ok ())) : ∃ item, newItem story place d = .ok item ∧
      after = place.put story (.list (xs ++ [item])) ∧
        (place.root = .assets → Ledger.flaw? after.assets = .ok none) := by
  rw [perform_path (by rw [hop]; decide)] at h
  rcases amendPath_cases story d with ⟨fault, heq⟩ | ⟨place', hplace', heq, hassets⟩
  · rw [heq] at h
    cases h
  obtain rfl := Except.ok.inj (hplace.symm.trans hplace')
  have hrequire : requireList story place d = .ok xs := by
    rw [requireList, hlist]
    rfl
  have hamend : amend story place d = putOutcome story place (appended story place d) := by
    simp only [amend, hop]
  rw [heq] at h
  rw [h] at hassets
  rw [hamend, appended, hrequire, Outcome.ok_bind] at h
  cases hitem : newItem story place d with
  | error fault =>
    rw [hitem] at h
    cases h
  | ok item =>
    rw [hitem, Outcome.ok_bind] at h
    obtain ⟨rfl, -⟩ := Prod.mk.inj h
    exact ⟨item, rfl, rfl, fun hroot => (hassets hroot).2⟩

/-- A removal is made that leaves the ledger without flaws. -/
theorem perform_remove (hop : e.op = .remove)
    (hplace : Place.resolve story e.path = .ok place) (hremoved : removed story place e = .ok ys)
    (hflaw : place.root = .assets →
      Ledger.flaw? (place.put story (.list ys)).assets = .ok none) :
    perform story e = (place.put story (.list ys), .ok ()) := by
  have hamend : amend story place e = (place.put story (.list ys), .ok ()) := by
    simp only [amend, hop, hremoved, putOutcome]
  rw [perform_path (by rw [hop]; decide)]
  by_cases hroot : place.root = .assets
  · rw [amendPath, hplace]
    simp only [rehearse_eq hplace hroot, hamend, Outcome.ok_bind, hflaw hroot]
    rfl
  · rw [amendPath_of_ne hplace hroot, hamend]

/-- Assets with some of the items of a list in its place have no flaw in their ledger. -/
theorem flaw?_of_sublist (h : story.Sound) (hroot : place.root = .assets)
    (hdoc : place.isDocumented = true) (hlist : place.read story = .ok (.list xs))
    (hsub : ys.Sublist xs) : Ledger.flaw? (place.put story (.list ys)).assets = .ok none := by
  have hown : Step.builtin Kind.ownName ∉ place.steps := fun hmem => by
    cases Place.isDocumented_iff.1 hdoc _ hmem
  have hassets := Place.isAssets_put hroot hown h.entries
    (Part.holds_of_subset (Place.holds_read hroot h.entries hlist) fun y => hsub.mem)
  refine Ledger.flaw?_of_sound ⟨hassets, ?_⟩
  have hfollow : story.assets.follow place.steps = .ok (.list xs) := by
    rw [Place.read_eq, hroot] at hlist
    exact hlist
  show (place.put story (.list ys)).assets.holders.Nodup
  by_cases hsteps : place.steps = [.slot (.field "cash_ledger")]
  · obtain ⟨slots, heq, hledger, -⟩ := Story.ledger_of_assets h.entries
    have hxs : ledger story = xs := by
      rw [hsteps, heq] at hfollow
      simpa [Value.follow, Value.read, hledger, bind, Except.bind] using hfollow
    rw [Place.assets_put_ledger hroot hsteps heq hledger]
    have hunique := h.unique
    rw [Story.holdings, hxs] at hunique
    simp only [Value.holders, Value.field, Value.field?, Table.get?_put_self, Option.getD_some,
      Value.items]
    exact hunique.sublist ((hsub.filterMap _).map _)
  · have hput : (place.put story (.list ys)).assets =
        story.assets.replace place.steps (.list ys) := by
      rw [Place.put, hroot]
      rfl
    rw [hput, Value.holders_replace h.entries (Place.isDocumented_iff.1 hdoc) hfollow
      (.list xs ys) hsteps]
    exact h.unique

/-- A list with an entity that guards its fields is the cash ledger. -/
theorem ledger_of_guarded {kind : Kind} {slots : List (Slot × Value)}
    (hdocument : document.isDocument = true) (hread : Story.read document = .ok story)
    (hdirect : place.Direct direct) (hlist : place.read story = .ok (.list xs))
    (hx : .entity kind slots ∈ xs) (hkind : kind.elsewhere = false) :
    place.root = .assets ∧ direct.steps = [.slot (.field "cash_ledger")] := by
  have hsettled := Story.settled_of_read hdocument hread
  have hguarded : ¬∀ y ∈ xs, y.within Kind.elsewhere = true := fun hwithin => by
    have helsewhere := (Value.within_entity.1 (hwithin _ hx)).1
    rw [hkind] at helsewhere
    cases helsewhere
  have hroot : place.root = .assets := by
    by_contra hroot
    exact hguarded (Value.within_list.1 (Place.within_read hsettled.apart hroot hlist))
  have hold := (hdirect.read hsettled.orderly).1 hlist
  obtain ⟨slots', hassets, -⟩ := Story.ledger_of_assets hsettled.sound.entries
  obtain ⟨assets, hget, hheld⟩ :=
    @Schema.get_of_held .worldState "assets" _ _ rfl rfl (Story.held_of_read hdocument hread)
  obtain rfl : story.assets = assets := Except.ok.inj hget
  have hfollow : story.assets.follow direct.steps = .ok (.list xs) := by
    rw [Place.read_eq, hdirect.root, hroot] at hold
    exact hold
  rw [hassets] at hheld hfollow
  exact ⟨hroot, (Schema.ledger_or_elsewhere hheld hdirect.steps.documented hfollow).resolve_right
    hguarded⟩

/-- After an append was made the comparison with its value is answered for all items that were
there before. -/
theorem answered_of_append (hdocument : document.isDocument = true)
    (hread : Story.read document = .ok story) (hdirect : place.Direct direct)
    (hlist : place.read story = .ok (.list xs)) (hd : d.value.isDocument = true)
    (hitem : newItem story place d = .ok item) (hflaw : place.root = .assets →
      Ledger.flaw? (place.put story (.list (xs ++ [item]))).assets = .ok none) :
    ∀ x ∈ xs, ∃ b, x.strictEqual d.value = .ok b := by
  intro x hx
  refine Value.strictEqual_answered fun kind slots heq => ?_
  subst heq
  cases hkind : kind.elsewhere with
  | true => exact Schema.validate_ne_overflow kind.shape (.inl (Kind.unbalanced_shape hkind))
  | false =>
    -- What guards its fields is in the cash ledger, and the item that joined it was read as an
    -- entry.
    have hsettled := Story.settled_of_read hdocument hread
    obtain ⟨hroot, hsteps⟩ := ledger_of_guarded hdocument hread hdirect hlist hx hkind
    obtain ⟨slots', hassets, hledger, -⟩ := Story.ledger_of_assets hsettled.sound.entries
    have hentries : ∀ y ∈ xs ++ [item], y.isEntity .ledgerEntry = true := by
      have hnone := hflaw hroot
      rw [hdirect.put hsettled.orderly ((hdirect.read hsettled.orderly).1 hlist),
        Place.assets_put_ledger (hdirect.root.trans hroot) hsteps hassets hledger] at hnone
      refine @Ledger.isEntity_of_flawAfter? [] _ ?_
      simpa [Ledger.flaw?, Value.get, Value.field?, Value.iterate, Outcome.ok_bind] using hnone
    obtain rfl : kind = .ledgerEntry := by
      simpa [Value.isEntity] using hentries _ (List.mem_append_left _ hx)
    have hentry := hentries item (by simp)
    obtain rfl | ⟨k, _, -, rfl, hvalidate⟩ :=
      newItem_ok (Story.tidy_of_read hdocument hread) hd hitem
    · generalize d.value = v at hd hentry
      cases v <;> first | cases hentry | cases hd
    · obtain rfl : k = .ledgerEntry := by simpa [Value.isEntity] using hentry
      simp [hvalidate]

theorem outcome_of_isApplied {tag : Tag} (h : (apply story d tag).isApplied = true) :
    (apply story d tag).outcome = .ok (.applied ⟨d, tag⟩) := by
  obtain ⟨c, hc⟩ := Run.isApplied_iff.1 h
  obtain ⟨heq, -⟩ | ⟨_, _, ⟨⟩, -⟩ := perform_of_apply hc
  rw [hc, heq]

theorem apply_of_perform (h : perform story d = (after, .ok ())) (tag : Tag) :
    (apply story d tag).outcome = .ok (.applied ⟨d, tag⟩) ∧ (apply story d tag).story = after := by
  rw [apply, h]
  exact ⟨rfl, rfl⟩

/-! ### What removing does then -/

section TakenOut

variable {p : Value → Prop} {x : Value} {i : Nat}

/-- Only the last item can be taken out, if no other has the property. -/
theorem takenOut_append (hnone : ∀ x ∈ xs, ¬p x) (h : TakenOut p (xs ++ [item]) ys) :
    p item ∧ ys = xs ∨ ¬p item ∧ ys = xs ++ [item] := by
  rcases h with ⟨i, x, hx, hp, -, rfl⟩ | ⟨hall, rfl⟩
  · have hi : xs.length ≤ i := by
      by_contra hlt
      rw [List.getElem?_append_left (not_le.1 hlt)] at hx
      exact hnone x (List.mem_of_getElem? hx) hp
    rw [List.getElem?_append_right hi] at hx
    obtain ⟨hlast, rfl⟩ := List.getElem?_eq_some_iff.1 hx
    obtain rfl : i = xs.length := by simp at hlast; omega
    exact .inl ⟨by simpa using hp, by simp [List.eraseIdx_append_of_length_le]⟩
  · exact .inr ⟨hall item (by simp), rfl⟩

/-- The item that is taken out is the first that has the property. -/
theorem eq_of_takenOut (hx : xs[i]? = some x) (hp : p x)
    (hbefore : ∀ j < i, ∀ y, xs[j]? = some y → ¬p y) (h : TakenOut p xs ys) :
    ys = xs.eraseIdx i := by
  rcases h with ⟨k, y, hy, hp', hbefore', rfl⟩ | ⟨hnone, -⟩
  · obtain hlt | rfl | hlt := lt_trichotomy i k
    · exact absurd hp (hbefore' i hlt x hx)
    · rfl
    · exact absurd hp' (hbefore k hlt y hy)
  · exact absurd hp (hnone x (List.mem_of_getElem? hx))

end TakenOut

/-- A removal by value takes out the first item that is told equal to it. -/
theorem removed_of_answered (hpattern : e.pattern = none)
    (hlist : place.read story = .ok (.list xs))
    (h : ∀ x ∈ xs, ∃ b, x.strictEqual e.value = .ok b) : ∃ ys, removed story place e = .ok ys ∧
      TakenOut (fun x => x.strictEqual e.value = .ok true) xs ys := by
  have hnone : pattern? e = .ok none := by rw [pattern?, hpattern]
  refine removed_of_answers (q := fun x => (x.strictEqual e.value).toOption == some true) hnone
    hlist (fun x hx => ?_) fun x hx => ?_
  · obtain ⟨b, hb⟩ := h x hx
    simp [isSought, hb, Except.toOption]
  · obtain ⟨b, hb⟩ := h x hx
    simp [hb, Except.toOption]

/-! ### Appending and removing -/

/-- What an append leaves that put an item at the end of a list: the list with the item at the same
place, where another list may come, and answers when its items are compared with the value. -/
structure Joined (story after : Story) (place : Place) (d : Delta) (xs : List Value) (item : Value) :
    Prop where
  taken : newItem story place d = .ok item
  joined : after = place.put story (.list (xs ++ [item]))
  flawless : place.root = .assets → Ledger.flaw? after.assets = .ok none
  resolves : Place.resolve after d.path = .ok place
  reads : place.read after = .ok (.list (xs ++ [item]))
  put : ∀ w, place.put after w = place.put story w
  answered : ∀ x ∈ xs ++ [item], ∃ b, x.strictEqual d.value = .ok b
  equal_iff : item.strictEqual d.value = .ok true ↔ ∀ n ∈ item.numbers, n.IsDefined

theorem joined_of_append (hdocument : document.isDocument = true)
    (hread : Story.read document = .ok story) (hv : d.value.isDocument = true)
    (hplace : Place.resolve story d.path = .ok place) (hlist : place.read story = .ok (.list xs))
    (hd : d.op = .append) (happend : perform story d = (after, .ok ())) :
    ∃ item, Joined story after place d xs item := by
  obtain ⟨item, hitem, hafter, hflaw⟩ := perform_append hd hplace hlist happend
  obtain ⟨direct, hdirect⟩ := Place.exists_direct hdocument hread hplace hlist
  have horder := Story.orderly_of_read hdocument hread
  have htidy := Story.tidy_of_read hdocument hread
  have hold := (hdirect.read horder).1 hlist
  have horderly := orderly_newItem htidy hv hitem
  have hself := strictEqual_newItem htidy hv hitem
  have hxs : (Value.list (xs ++ [item])).Orderly := by
    refine Value.orderly_list.2 fun x hx => ?_
    rcases List.mem_append.1 hx with hx | hx
    · exact Value.orderly_list.1 (hdirect.orderly horder hold) x hx
    · exact List.mem_singleton.1 hx ▸ horderly
  obtain ⟨hplace', hlist', hput⟩ := hdirect.put_list horder hplace hold hxs
  rw [← hafter] at hplace' hlist' hput
  have hanswered : ∀ x ∈ xs ++ [item], ∃ b, x.strictEqual d.value = .ok b := by
    intro x hx
    rcases List.mem_append.1 hx with hx | hx
    · exact answered_of_append hdocument hread hdirect hlist hv hitem (hafter ▸ hflaw) x hx
    · exact ⟨_, List.mem_singleton.1 hx ▸ hself⟩
  refine ⟨item, hitem, hafter, hflaw, hplace', hlist', hput, hanswered, ?_⟩
  rw [hself, Except.ok.injEq]
  exact Value.equal_self_iff item (tidy_newItem htidy hv hitem) horderly

section Pair

variable (hdocument : document.isDocument = true) (hread : Story.read document = .ok story)
  (hv : d.value.isDocument = true) (hpath : e.path = d.path) (hvalue : e.value = d.value)
  (he : e.op = .remove) (hpattern : e.pattern = none)
  (hplace : Place.resolve story d.path = .ok place) (hlist : place.read story = .ok (.list xs))
include hdocument hread hv hpath hvalue he hpattern hplace hlist

/-- A removal after an append succeeds, and takes the item out again if no other is told equal to the
value and no NaN is in the item. -/
theorem remove_after_append (hd : d.op = .append)
    (hnone : ∀ x ∈ xs, x.strictEqual d.value ≠ .ok true)
    (happend : perform story d = (after, .ok ())) :
    ∃ item, newItem story place d = .ok item ∧ after.readPath d.path = .ok (.list (xs ++ [item])) ∧
      ∃ last, perform after e = (last, .ok ()) ∧
        ((∀ n ∈ item.numbers, n.IsDefined) → last = story) := by
  obtain ⟨item, h⟩ := joined_of_append hdocument hread hv hplace hlist hd happend
  obtain ⟨ys, hremoved, htaken⟩ := removed_of_answered hpattern h.reads (by
    rw [hvalue]
    exact h.answered)
  rw [hvalue] at htaken
  refine ⟨item, h.taken, by rw [Story.readPath, h.resolves]; exact h.reads, ?_⟩
  rcases takenOut_append hnone htaken with ⟨-, rfl⟩ | ⟨hunequal, rfl⟩
  · have hback : place.put after (.list ys) = story := by
      rw [h.put, Place.put_read hlist]
    refine ⟨story, ?_, fun _ => rfl⟩
    have hperform := perform_remove he (by rw [hpath, h.resolves]) hremoved fun _ => by
      rw [hback]
      exact Ledger.flaw?_of_sound (Story.sound_of_read hread)
    rw [hperform, hback]
  · have hsame : place.put after (.list (xs ++ [item])) = after := by
      rw [h.put, ← h.joined]
    refine ⟨after, ?_, fun hdefined => absurd (h.equal_iff.2 hdefined) hunequal⟩
    have hperform := perform_remove he (by rw [hpath, h.resolves]) hremoved fun hroot => by
      rw [hsame]
      exact h.flawless hroot
    rw [hperform, hsame]

/-- A removal takes out the first item that is told equal to its value. -/
theorem remove_first {i : Nat} {x : Value} (hx : xs[i]? = some x)
    (hmatch : x.strictEqual d.value = .ok true)
    (hbefore : ∀ j < i, ∀ y, xs[j]? = some y → y.strictEqual d.value ≠ .ok true) :
    perform story e = (place.put story (.list (xs.eraseIdx i)), .ok ()) ∧
      (place.put story (.list (xs.eraseIdx i))).readPath e.path = .ok (.list (xs.eraseIdx i)) := by
  obtain ⟨direct, hdirect⟩ := Place.exists_direct hdocument hread hplace hlist
  have horder := Story.orderly_of_read hdocument hread
  have hold := (hdirect.read horder).1 hlist
  have hloaded : (Value.list xs).Loaded := by
    rw [Place.read_eq] at hold
    exact (Story.loaded_root hdocument hread direct.root).follow hdirect.steps.documented hold
  obtain ⟨ys, hremoved, htaken⟩ := removed_of_answered hpattern hlist (by
    rw [hvalue]
    exact Schema.answered_of_match hloaded (List.mem_of_getElem? hx) hv hmatch)
  rw [hvalue] at htaken
  obtain rfl := eq_of_takenOut hx hmatch hbefore htaken
  have hys : (Value.list (xs.eraseIdx i)).Orderly := Value.orderly_list.2 fun y hy =>
    Value.orderly_list.1 (hdirect.orderly horder hold) y (List.mem_of_mem_eraseIdx hy)
  obtain ⟨hplace', hlist', -⟩ := hdirect.put_list horder hplace hold hys
  refine ⟨perform_remove he (by rwa [hpath]) hremoved fun hroot => ?_, ?_⟩
  · rw [hdirect.put horder hold]
    exact flaw?_of_sublist (Story.sound_of_read hread) (hdirect.root.trans hroot)
      hdirect.isDocumented hold (List.eraseIdx_sublist ..)
  · rw [Story.readPath, hpath, hplace']
    exact hlist'

/-- With a value that no NaN is in, a removal undoes an append if none came into the item when the
value was read, as long as no item before it is told equal to the value; and it takes out the first
item that is, where one is. -/
theorem remove_undoes_append (hd : d.op = .append)
    (hdefined : ∀ n ∈ d.value.numbers, n.IsDefined) (tag tag' : Tag) :
    ((∀ x ∈ xs, x.strictEqual d.value ≠ .ok true) →
      (apply story d tag).outcome = .ok (.applied ⟨d, tag⟩) →
      ∃ item, newItem story place d = .ok item ∧
        (apply story d tag).story.readPath d.path = .ok (.list (xs ++ [item])) ∧
        (apply (apply story d tag).story e tag').outcome = .ok (.applied ⟨e, tag'⟩) ∧
        ((∀ n ∈ item.numbers, n ∉ d.value.numbers → n.IsDefined) →
          (apply (apply story d tag).story e tag').story = story)) ∧
    ∀ (i : Nat) (x : Value), xs[i]? = some x → x.strictEqual d.value = .ok true →
      (∀ j < i, ∀ y, xs[j]? = some y → y.strictEqual d.value ≠ .ok true) →
        (apply story e tag').outcome = .ok (.applied ⟨e, tag'⟩) ∧
        (apply story e tag').story = place.put story (.list (xs.eraseIdx i)) ∧
        (apply story e tag').story.readPath e.path = .ok (.list (xs.eraseIdx i)) := by
  constructor
  · intro hnone happlied
    obtain ⟨-, hperform⟩ | ⟨_, _, ⟨⟩, -⟩ := perform_of_apply happlied
    obtain ⟨item, hitem, hlist', last, hremove, hlast⟩ :=
      remove_after_append hdocument hread hv hpath hvalue he hpattern hplace hlist hd hnone hperform
    obtain ⟨houtcome, hstory⟩ := apply_of_perform hremove tag'
    refine ⟨item, hitem, hlist', houtcome, fun hnew => hstory ▸ hlast fun n hn => ?_⟩
    by_cases hgiven : n ∈ d.value.numbers
    · exact hdefined n hgiven
    · exact hnew n hn hgiven
  · intro i x hx hmatch hbefore
    obtain ⟨hperform, hlist'⟩ :=
      remove_first hdocument hread hv hpath hvalue he hpattern hplace hlist hx hmatch hbefore
    obtain ⟨houtcome, hstory⟩ := apply_of_perform hperform tag'
    exact ⟨houtcome, hstory, by rw [hstory]; exact hlist'⟩

end Pair

/-- The document of a story with one entry in its cash ledger. -/
def purseDocument : Value :=
  .mapping [("assets", .mapping [("cash_ledger", .list [
    .mapping [("holder", .text "a"), ("denarii", .int 5)]])])]

/-- A delta on the cash ledger whose value is the document of an entry. -/
def entering (op : DeltaOp) (holder : String) (denarii : Int) : Delta :=
  ⟨op, "assets.cash_ledger", .mapping [("holder", .text holder), ("denarii", .int denarii)],
    none, none, none, none⟩

/-- Whether a value is a list of one item, with such an answer to a comparison. -/
def onlyAnswers (wanted : Value) (answer : Bool) : Value → Bool
  | .list [x] => (x.strictEqual wanted).toOption == some answer
  | _ => false

theorem eq_of_onlyAnswers {wanted v : Value} {answer : Bool}
    (h : onlyAnswers wanted answer v = true) :
    ∃ x, v = .list [x] ∧ x.strictEqual wanted = .ok answer := by
  unfold onlyAnswers at h
  split at h
  · rename_i x
    exact ⟨x, rfl, Outcome.toOption_eq_some.1 (beq_iff_eq.1 h)⟩
  · cases h

/-- An entry that is appended to the ledger is taken out again by what it was read from, and the
entry that was there by its own document. -/
theorem remove_undoes_append_entry : ∃ story, Story.read purseDocument = .ok story ∧
    (apply story (entering .append "b" 0) ⟨none, none⟩).isApplied = true ∧
    (apply (apply story (entering .append "b" 0) ⟨none, none⟩).story (entering .remove "b" 0)
      ⟨none, none⟩).story = story ∧
    (apply story (entering .remove "a" 5) ⟨none, none⟩).story.readPath "assets.cash_ledger" =
      .ok (.list []) := by
  obtain ⟨story, hread, hplace, happlied, hother, hsame, hnumbers⟩ := Story.exists_read purseDocument
    (fun story => Place.resolve story "assets.cash_ledger" =
        .ok ⟨.assets, [], .slot (.field "cash_ledger")⟩ ∧
      (apply story (entering .append "b" 0) ⟨none, none⟩).isApplied = true ∧
      ((⟨.assets, [], .slot (.field "cash_ledger")⟩ : Place).read story).map
        (onlyAnswers (entering .append "b" 0).value false) = .ok true ∧
      ((⟨.assets, [], .slot (.field "cash_ledger")⟩ : Place).read story).map
        (onlyAnswers (entering .append "a" 5).value true) = .ok true ∧
      (newItem story ⟨.assets, [], .slot (.field "cash_ledger")⟩ (entering .append "b" 0)).map
        (fun item => decide (∀ n ∈ item.numbers, n.IsDefined)) = .ok true) (by decide +kernel)
  obtain ⟨v, hlist, hv⟩ := Outcome.map_ok.1 hother
  obtain ⟨x, rfl, hx⟩ := eq_of_onlyAnswers hv
  obtain ⟨w, hlist', hw⟩ := Outcome.map_ok.1 hsame
  obtain ⟨y, heq, hy⟩ := eq_of_onlyAnswers hw
  obtain rfl : x = y := by simpa [hlist, heq] using hlist'
  have hdocument : purseDocument.isDocument = true := by decide +kernel
  have hundone := (@remove_undoes_append _ _ (entering .append "b" 0) (entering .remove "b" 0) _ _
    hdocument hread (by decide +kernel) rfl rfl rfl rfl hplace hlist rfl (by decide +kernel)
    ⟨none, none⟩ ⟨none, none⟩).1
  have htaken := (@remove_undoes_append _ _ (entering .append "a" 5) (entering .remove "a" 5) _ _
    hdocument hread (by decide +kernel) rfl rfl rfl rfl hplace hlist rfl (by decide +kernel)
    ⟨none, none⟩ ⟨none, none⟩).2
  obtain ⟨item, hitem, -, -, hback⟩ :=
    hundone (by simp [hx]) (outcome_of_isApplied happlied)
  have hdefined : ∀ n ∈ item.numbers, n.IsDefined := by simpa [hitem, Except.map] using hnumbers
  obtain ⟨-, -, hread'⟩ := htaken 0 x rfl hy (by simp)
  exact ⟨story, hread, happlied, hback fun n hn _ => hdefined n hn, hread'⟩

/-- The document of a story with one character. -/
def aloneDocument : Value := .mapping [("characters", .list [.mapping [("id", .text "a")]])]

/-- A delta on what the character desires. There is no number in its value, but the text of the
priority is read as NaN. -/
def wishing (op : DeltaOp) : Delta :=
  ⟨op, "characters.a.bdi.desires", .mapping [("text", .text "x"), ("priority", .text "nan")],
    none, none, none, none⟩

/-- Whether a value is a list without items. -/
def isEmptyList : Value → Bool
  | .list [] => true
  | _ => false

/-- A desire whose priority was given as a text for NaN is not found again by the value that it was
read from. -/
theorem remove_misses_nan : ∃ story, Story.read aloneDocument = .ok story ∧
    story.readPath (wishing .append).path = .ok (.list []) ∧ (wishing .append).value.numbers = [] ∧
    (apply story (wishing .append) ⟨none, none⟩).isApplied = true ∧
    (apply (apply story (wishing .append) ⟨none, none⟩).story (wishing .remove)
      ⟨none, none⟩).isApplied = true ∧
    (apply (apply story (wishing .append) ⟨none, none⟩).story (wishing .remove)
      ⟨none, none⟩).story ≠ story := by
  obtain ⟨story, hread, hempty, happend, hremove, hafter⟩ := Story.exists_read aloneDocument
    (fun story => (story.readPath (wishing .append).path).map isEmptyList = .ok true ∧
      (apply story (wishing .append) ⟨none, none⟩).isApplied = true ∧
      (apply (apply story (wishing .append) ⟨none, none⟩).story (wishing .remove)
        ⟨none, none⟩).isApplied = true ∧
      ((apply (apply story (wishing .append) ⟨none, none⟩).story (wishing .remove)
        ⟨none, none⟩).story.readPath (wishing .append).path).map isEmptyList = .ok false)
      (by decide +kernel)
  have hlist : story.readPath (wishing .append).path = .ok (.list []) := by
    obtain ⟨v, hv, hnil⟩ := Outcome.map_ok.1 hempty
    unfold isEmptyList at hnil
    split at hnil
    · exact hv
    · cases hnil
  refine ⟨story, hread, hlist, by decide +kernel, happend, hremove, fun heq => ?_⟩
  rw [heq, hempty] at hafter
  cases hafter

end Delta

end StoryWorld
