import StoryWorld.Proofs.Tidy

/-!
A change keeps each key once.

The steps that a path makes are to declared fields, or by names that no declared field goes by. What
is put at the end of them leaves the whole tidy, and so does an assignment, also past the guards of
an entity. A transfer changes balances and adds an entry. So a story that was read is tidy after a
delta of a document, whatever comes of it.
-/

namespace StoryWorld

/-! ### Steps that look-ups make -/

/-- A step that a look-up in an entity of a kind can make: to a declared field, or else by a name
that no declared field goes by. -/
def Step.Suits (kind : Kind) : Step → Prop
  | slot (.field name) => (Slot.field name).Suits kind
  | slot (.extra name) | slot (.attached name) | computed name | builtin name => kind.Free name
  | slot .given | key _ | item _ => True

/-- A step that a look-up in a value can make. -/
def Step.SuitsIn : Value → Step → Prop
  | .entity kind _, s => s.Suits kind
  | _, _ => True

theorem Slot.suits_of_step {kind : Kind} {slot : Slot} (h : (Step.slot slot).Suits kind) :
    slot.Suits kind := by
  cases slot with
  | field name => exact h
  | extra name => exact h.extra
  | attached name => exact h.attached
  | given => trivial

/-- The slot for what takes the place of something built in suits an entity, if no declared field goes
by the name. -/
theorem Member.suits_slot? {kind : Kind} {member : Member} {name : String} {slot : Slot}
    (hfree : kind.Free name) (h : member.slot? name = some slot) : (Step.slot slot).Suits kind := by
  rcases Member.eq_of_slot? h with rfl | rfl
  · exact hfree
  · trivial

/-- Steps that look-ups in a value can make one after the other. -/
def Value.Suited : Value → List Step → Prop
  | _, [] => True
  | v, s :: rest => s.SuitsIn v ∧ ∀ w, v.read s = .ok w → Suited w rest

namespace Locate

variable {path name : String} {kind : Kind} {slots : List (Slot × Value)} {v : Value} {l : Lookup}
  {ls : List Lookup} {s : Step} {steps : List Step}

theorem free_of_declared? (h : declared? kind name = none) : kind.Free name := by
  unfold declared? at h
  split at h
  · cases h
  · rename_i hnames
    rw [Option.map_eq_none_iff] at h
    intro f hf
    have hname := List.find?_eq_none.1 hnames f hf
    have hexternal := List.find?_eq_none.1 h f hf
    exact ⟨by simpa using hname, by simpa using hexternal⟩

theorem fieldStep_suits (h : fieldStep? kind slots name = some s) : s.Suits kind := by
  unfold fieldStep? at h
  split at h
  · cases h
    exact declared?_mem ‹_›
  · have hfree := free_of_declared? ‹_›
    split at h
    · cases h
      unfold Value.extraStep
      split
      · exact hfree
      split
      · split
        · split
          · exact Member.suits_slot? hfree ‹_›
          · exact hfree
        · exact hfree
      · split
        · exact hfree
        · exact hfree
    · cases h

theorem find_suits (h : find path v l = .ok s) : s.SuitsIn v := by
  cases v with
  | entity kind slots =>
    have hchild : ∀ {name}, child path (.entity kind slots) name = .ok s → s.Suits kind := by
      intro name h
      unfold child at h
      simp only at h
      split at h
      · cases h
        exact fieldStep_suits ‹_›
      · cases h
    cases l with
    | name n => exact hchild h
    | inside name accessor =>
      cases accessor with
      | key k => exact hchild h
      | position i => cases h
  | _ => trivial

theorem Leads.suited (h : Leads path v ls steps) : v.Suited steps := by
  induction h with
  | last h => exact ⟨find_suits h, fun _ _ => trivial⟩
  | next h hw _ ih =>
    refine ⟨find_suits h, fun x hx => ?_⟩
    obtain rfl := Except.ok.inj (hw.symm.trans hx)
    exact ih

end Locate

namespace Value

variable {v w old : Value} {s : Step} {steps : List Step} {kind : Kind}
  {slots : List (Slot × Value)}

theorem suited_append : ∀ {v : Value} {before : List Step}, v.Suited (before ++ steps) →
    v.Suited before ∧ ∀ w, v.follow before = .ok w → w.Suited steps
  | v, [], h => by
    refine ⟨trivial, fun w hw => ?_⟩
    obtain rfl := by simpa [follow] using hw
    exact h
  | v, s :: before, ⟨hs, hrest⟩ => by
    refine ⟨⟨hs, fun x hx => (suited_append (hrest x hx)).1⟩, fun w hw => ?_⟩
    obtain ⟨x, hx, hfollow⟩ := follow_cons.1 hw
    exact (suited_append (hrest x hx)).2 w hfollow

theorem list_of_put {xs : List Value} (h : v.put s w = .list xs) : ∃ ys, v = .list ys := by
  unfold put at h
  split at h
  · cases h
  · unfold putComputed at h
    split at h <;> cases h
  · unfold putBuiltin at h
    split at h <;> cases h
  · cases h
  · exact ⟨_, rfl⟩
  · exact ⟨xs, h⟩

theorem list_of_putInside {xs : List Value} (h : v.putInside s w = .list xs) :
    ∃ ys, v = .list ys := by
  unfold putInside at h
  split at h
  · split at h
    · cases h
    · exact list_of_put h
  · exact list_of_put h

/-- Nothing becomes a list by a change inside it. -/
theorem list_of_replace {rest : List Step} {xs : List Value}
    (h : v.replace (s :: rest) w = .list xs) : ∃ ys, v = .list ys := by
  unfold replace at h
  split at h
  · split at h
    · exact list_of_put h
    · exact list_of_putInside h
  · exact ⟨xs, h⟩

/-- Only the relevance of a secret is computed as a list. -/
theorem relevance_of_compute {xs : List Value} {name : String}
    (h : compute name v = .ok (.list xs)) : relevance v = .ok (.list xs) := by
  unfold compute at h
  split at h
  · obtain ⟨_, -, ⟨⟩⟩ := Outcome.map_ok.1 h
  split at h
  · exact h
  · obtain ⟨_, -, ⟨⟩⟩ := Outcome.map_ok.1 h

namespace Tidy

/-- An entity is tidy with something tidy in a slot that it can have. -/
theorem put_slot {slot : Slot} (h : (Value.entity kind slots).Tidy) (hslot : slot.Suits kind)
    (hw : w.Tidy) : (Value.entity kind (Table.put slot w slots)).Tidy := by
  obtain ⟨hkind, hslots, hvalues⟩ := tidy_entity.1 h
  refine .entity hkind (hslots.put hslot w) fun e he => ?_
  rcases Table.mem_put he with rfl | he
  · exact hw
  · exact hvalues e he

theorem setField {name : String} (h : v.Tidy) (hold : v.field? name = some old) (hw : w.Tidy) :
    (v.setField name w).Tidy := by
  cases v with
  | entity kind slots => exact h.put_slot (h.suits_of_get? hold) hw
  | _ => exact h

/-- The items of a list that is computed are shared out to two lists that are there. -/
theorem shareItems {secret : Value} {xs items : List Value} (h : secret.Tidy)
    (hrelevance : relevance secret = .ok (.list xs)) (hitems : ∀ x ∈ items, x.Tidy) :
    (shareItems secret items).Tidy := by
  obtain ⟨stats, ys, zs, hstats, hlegal, hdamage, -⟩ := relevance_list hrelevance
  have hfield : secret.field "stats" = stats := by rw [Value.field, hstats]; rfl
  have htake : ∀ n, (Value.list (items.take n)).Tidy := fun n =>
    .list fun x hx => hitems x (List.mem_of_mem_take hx)
  have hdrop : ∀ n, (Value.list (items.drop n)).Tidy := fun n =>
    .list fun x hx => hitems x (List.mem_of_mem_drop hx)
  have hdamage' : ∀ legal,
      (stats.setField "legal_value" legal).field? "public_damage" = some (.list zs) := by
    intro legal
    cases stats with
    | entity kind slots => exact (Table.get?_put_of_ne (by decide) legal slots).trans hdamage
    | _ => cases hdamage
  unfold Value.shareItems
  simp only [hfield]
  exact h.setField hstats
    (((h.field? hstats).setField hlegal (htake _)).setField (hdamage' _) (hdrop _))

/-- A value that is put where a look-up leads leaves the whole tidy. -/
theorem put (h : v.Tidy) (hs : s.SuitsIn v) (hw : w.Tidy) : (v.put s w).Tidy := by
  unfold Value.put
  split
  · exact h.put_slot (Slot.suits_of_step hs) hw
  · unfold putComputed
    split
    · exact h.put_slot (Kind.Free.extra hs) hw
    · exact h
  · rename_i kind slots name
    have hrefill : ∀ (picked : Slot → Bool) {es}, (Value.mapping es).Tidy →
        (Value.entity kind (refill picked slots es)).Tidy := by
      intro picked es hes
      obtain ⟨hkind, hslots, hvalues⟩ := tidy_entity.1 h
      refine .entity hkind (hslots.of_keys (keys_refill picked slots es)) fun e he => ?_
      rcases mem_refill he with he | ⟨f, hf, heq⟩
      · exact hvalues e he
      · exact heq ▸ (tidy_mapping.1 hes).2 f hf
    unfold putBuiltin
    split
    · exact hrefill _ hw
    · exact hrefill _ hw
    · unfold putHeld
      split
      · exact h.put_slot (show Slot.given.Suits kind from trivial) hw
      · exact h
    · exact h
  · rename_i es k
    obtain ⟨hkeys, hes⟩ := tidy_mapping.1 h
    refine .mapping (Table.nodup_keys_put hkeys) fun e he => ?_
    exact (Table.mem_put he).elim (fun heq => heq ▸ hw) (hes e)
  · refine .list fun x hx => ?_
    exact (List.mem_or_eq_of_mem_set hx).elim (tidy_list.1 h x) (fun heq => heq ▸ hw)
  · exact h

/-- So does a value that is changed inside. -/
theorem putInside (h : v.Tidy) (hs : s.SuitsIn v) (hold : v.read s = .ok old) (hw : w.Tidy)
    (hlist : ∀ xs, w = .list xs → ∃ ys, old = .list ys) : (v.putInside s w).Tidy := by
  unfold Value.putInside
  split
  · rename_i kind slots name items
    split
    · rename_i c hc
      obtain ⟨ys, rfl⟩ := hlist items rfl
      have hread : compute name (.entity kind slots) = .ok (.list ys) := by
        simpa [Value.read, Value.computed, hc] using hold
      exact h.shareItems (relevance_of_compute hread) (tidy_list.1 hw)
    · exact h.put hs hw
  · exact h.put hs hw

/-- A value stays tidy if something tidy is put at the end of steps that look-ups make. -/
theorem replace (h : v.Tidy) (hs : v.Suited steps) (hw : w.Tidy) : (v.replace steps w).Tidy := by
  induction steps generalizing v with
  | nil => exact hw
  | cons s rest ih =>
    unfold Value.replace
    cases hread : v.read s with
    | error fault => exact h
    | ok x =>
      have hinner := ih (h.read hread) (hs.2 x hread)
      cases rest with
      | nil => exact h.put hs.1 hw
      | cons t rest => exact h.putInside hs.1 hread hinner fun xs hxs => list_of_replace hxs

end Tidy

end Value

/-! ### What an assignment leaves -/

namespace Assign

open Value

variable {kind : Kind} {slots : List (Slot × Value)} {slot : Slot} {value w : Value} {step : Step}

theorem tidy_documented (h : (Value.entity kind slots).Tidy) :
    (Value.entity kind (slots.filter documented)).Tidy := by
  obtain ⟨hkind, hslots, hvalues⟩ := tidy_entity.1 h
  exact .entity hkind (hslots.filter _) fun e he => hvalues e (List.mem_of_mem_filter he)

theorem tidy_settle (h : (Value.entity kind slots).Tidy) (hslot : slot.Suits kind)
    (hv : value.Tidy) : (settle kind slots slot value).1.Tidy := by
  unfold settle
  split
  · exact (tidy_documented h).put_slot hslot hv
  · exact h

/-- What a document is read as for a field of a kind in a story is tidy. -/
theorem tidy_guardedField {name : String} (h : (Value.entity kind slots).Tidy)
    (hv : value.isDocument = true) : (guardedField kind slots name value).1.Tidy := by
  unfold guardedField
  split
  · exact h
  · rename_i f shape hfield
    split
    · rename_i v hread
      have hkind := (tidy_entity.1 h).1
      have hmem := List.mem_of_find?_eq_some hfield
      obtain ⟨u, hu, hcheck⟩ := Verdict.andThen_accepted.1 (Verdict.under_accepted.1 hread)
      obtain rfl := Rule.eq_of_check (Schema.storableFields_kind hkind _ hmem).1.keeps hcheck
      exact tidy_settle h (Kind.suits_of_field? hfield)
        (Schema.tidy_closed.of_field hkind hmem (.inl ⟨value, hv, hu⟩))
    · exact h
    · exact h

/-- All that an entity holds beside its extra fields can be replaced: by the keys of a document. -/
theorem tidy_replaceOwn (h : (Value.entity kind slots).Tidy) (hv : value.Tidy) :
    (replaceOwn kind slots value).1.Tidy := by
  unfold replaceOwn
  split
  · rename_i es
    obtain ⟨hkind, hslots, hvalues⟩ := tidy_entity.1 h
    obtain ⟨hkeys, hes⟩ := tidy_mapping.1 hv
    have hothers := hslots.filter (!·.1.isOwn)
    have hown : Table.keys (es.map fun e => (ownSlot kind e.1, e.2)) =
        (Table.keys es).map (ownSlot kind) := by
      rw [Table.keys, Table.keys, List.map_map, List.map_map]
      rfl
    have hkeys' : Table.keys ((es.map fun e => (ownSlot kind e.1, e.2)) ++
        slots.filter (!·.1.isOwn)) =
        (Table.keys es).map (ownSlot kind) ++ Table.keys (slots.filter (!·.1.isOwn)) := by
      rw [← hown, Table.keys, List.map_append]
      rfl
    refine .entity hkind ⟨?_, fun s hs => ?_⟩ fun e he => ?_
    · rw [hkeys', List.nodup_append]
      refine ⟨hkeys.map (ownSlot_injective kind), hothers.unique, ?_⟩
      rintro _ hs _ hs' rfl
      obtain ⟨name, -, rfl⟩ := List.mem_map.1 hs
      obtain ⟨⟨s, x⟩, he, heq⟩ := List.mem_map.1 hs'
      obtain rfl : s = ownSlot kind name := heq
      have hnotOwn := (List.mem_filter.1 he).2
      unfold ownSlot at hnotOwn
      split at hnotOwn <;> cases hnotOwn
    · rw [hkeys'] at hs
      rcases List.mem_append.1 hs with hs | hs
      · obtain ⟨name, -, rfl⟩ := List.mem_map.1 hs
        exact suits_ownSlot kind name
      · exact hothers.suits s hs
    · rcases List.mem_append.1 he with he | he
      · obtain ⟨entry, hentry, rfl⟩ := List.mem_map.1 he
        exact hes entry hentry
      · exact hvalues e (List.mem_of_mem_filter he)
  · exact h

/-- An entity to which a document was assigned is tidy. -/
theorem tidy_toEntity (h : (Value.entity kind slots).Tidy) (hs : step.Suits kind)
    (hv : value.isDocument = true) : (toEntity kind slots step value).1.Tidy := by
  have hvalue := tidy_of_isDocument value hv
  unfold toEntity
  split
  · split
    · exact tidy_guardedField h hv
    · exact h.put_slot hs hvalue
  · split
    · exact h.put_slot (Kind.Free.attached hs) hvalue
    · split
      · exact tidy_settle h (Kind.Free.extra hs) hvalue
      · exact h.put_slot (Kind.Free.extra hs) hvalue
  · exact h.put_slot (Slot.suits_of_step hs) hvalue
  · unfold toBuiltin
    split
    · exact tidy_replaceOwn h hvalue
    · split
      · exact h
      · split
        · exact tidy_settle h (Kind.Free.extra hs) hvalue
        · exact h.put_slot (Slot.suits_of_step (Member.suits_slot? hs ‹_›)) hvalue
    · exact h
  · exact h

/-- What holds a place is tidy after an assignment to it: of a document, or of a tidy item of a
list. -/
theorem tidy_assign (h : w.Tidy) (hs : step.SuitsIn w)
    (hv : value.isDocument = true ∨ (∃ i, step = .item i) ∧ value.Tidy) :
    (assign w step value).1.Tidy := by
  unfold assign
  split
  · rcases hv with hv | ⟨⟨i, rfl⟩, -⟩
    · exact tidy_toEntity h hs hv
    · exact h
  · exact h.put hs (hv.elim (tidy_of_isDocument value) And.right)

end Assign

/-! ### What a delta leaves -/

theorem Story.tidy_root {story : Story} (h : story.toEntity.Tidy) (r : Root) :
    (story.root r).Tidy := h.read (story.read_root r)

theorem Story.tidy_setRoot {story : Story} {r : Root} {v : Value} (h : story.toEntity.Tidy)
    (hv : v.Tidy) : (story.setRoot r v).toEntity.Tidy := by
  rw [toEntity_setRoot]
  exact h.put_slot (h.suits_of_get? (Value.read_slot.1 (story.read_root r))) hv

/-- A story that was read is tidy. -/
theorem Story.tidy_of_read {document : Value} {story : Story} (hd : document.isDocument = true)
    (h : read document = .ok story) : story.toEntity.Tidy :=
  Schema.tidy_closed.of_kind rfl (held_of_read hd h)

namespace Place

variable {story : Story} {place : Place} {path : String} {v : Value}

theorem suited_steps (h : resolve story path = .ok place) :
    (story.root place.root).Suited place.steps := by
  obtain ⟨parts, segments, -, -, hlocate⟩ := resolve_ok.1 h
  exact (Locate.locate_ok.1 hlocate).2.suited

theorem tidy_put (hplace : resolve story path = .ok place) (h : story.toEntity.Tidy)
    (hv : v.Tidy) : (place.put story v).toEntity.Tidy :=
  Story.tidy_setRoot h ((Story.tidy_root h _).replace (suited_steps hplace) hv)

theorem tidy_write (hplace : resolve story path = .ok place) (h : story.toEntity.Tidy)
    (hv : v.isDocument = true ∨ (∃ i, place.last = .item i) ∧ v.Tidy) (text : String) :
    (place.write story text v).1.toEntity.Tidy := by
  obtain ⟨hbefore, hlast⟩ := Value.suited_append (suited_steps hplace)
  unfold write
  split
  · exact h
  · rename_i w hw
    have htidy := (Story.tidy_root h place.root).follow hw
    exact Story.tidy_setRoot h ((Story.tidy_root h _).replace hbefore
      (Assign.tidy_assign htidy (hlast w hw).1 hv))

/-- The items of a list in a story are declared to be entities of a story. -/
theorem inStory_of_itemKind? {kind : Kind} (h : story.toEntity.Tidy)
    (hitem : place.itemKind? story = some kind) : kind.inStory = true := by
  unfold itemKind? at hitem
  split at hitem
  · rename_i container slots name hcontainer _
    have hkind := (Value.tidy_entity.1 ((Story.tidy_root h _).follow hcontainer)).1
    split at hitem
    · rename_i f item fields hfield
      obtain rfl := Option.some.inj hitem
      exact (Schema.storableFields_kind hkind _ (List.mem_of_find?_eq_some hfield)).2.1
    · cases hitem
  · cases hitem

end Place

namespace Delta

open Value

variable {story : Story} {place : Place} {delta : Delta} {v x : Value} {xs : List Value}

theorem tidy_fit {kind : Kind} (hkind : kind.inStory = true) (hd : delta.value.isDocument = true)
    (h : fit kind delta = .ok v) : v.Tidy :=
  Schema.tidy_closed.of_kind hkind (held_of_fit hd h)

theorem tidy_newItem (h : story.toEntity.Tidy) (hd : delta.value.isDocument = true)
    (hx : newItem story place delta = .ok x) : x.Tidy := by
  unfold newItem at hx
  split at hx
  · exact tidy_fit (Place.inStory_of_itemKind? h ‹_›) hd hx
  · obtain rfl := Except.ok.inj hx
    exact tidy_of_isDocument _ hd

/-- A path delta of a document leaves a story tidy, whatever comes of it. -/
theorem tidy_amend {path : String} (hplace : Place.resolve story path = .ok place)
    (h : story.toEntity.Tidy) (hd : delta.value.isDocument = true) :
    (amend story place delta).1.toEntity.Tidy := by
  have hread : ∀ {w}, place.read story = .ok w → w.Tidy := fun hw =>
    (Story.tidy_root h place.root).follow (by rwa [← Place.read_eq])
  refine amend_keeps (P := fun s => s.toEntity.Tidy) h (fun v hv => ?_) (fun f v hv => ?_)
    (fun xs hxs => ?_) fun xs hxs => ?_
  · refine Place.tidy_write hplace h ?_ _
    rcases replacement_ok hv with rfl | ⟨i, kind, slots, hlast, hold, hfit⟩
    · exact .inl hd
    · exact .inr ⟨⟨i, hlast⟩, tidy_fit (tidy_entity.1 (hread hold)).1 hd hfit⟩
  · obtain ⟨n, rfl⟩ := computed_ok hv
    exact Place.tidy_write hplace h (.inl rfl) _
  · obtain ⟨ys, hys, hxs⟩ := Outcome.bind_ok.1 hxs
    obtain ⟨x, hx, hxs⟩ := Outcome.bind_ok.1 hxs
    obtain rfl := Outcome.pure_ok.1 hxs
    have hlist := tidy_list.1 (hread (requireList_ok hys))
    refine Place.tidy_put hplace h (.list fun y hy => ?_)
    rcases List.mem_append.1 hy with hy | hy
    · exact hlist y hy
    · obtain rfl := List.mem_singleton.1 hy
      exact tidy_newItem h hd hx
  · obtain ⟨ys, hold, hsub⟩ := removed_ok hxs
    exact Place.tidy_put hplace h (.list fun x hx => tidy_list.1 (hread hold) x (hsub x hx))

theorem tidy_ledger (h : story.toEntity.Tidy) (ha : story.assets.IsAssets) :
    ∀ e ∈ ledger story, e.Tidy := by
  obtain ⟨slots, hslots, hget, -⟩ := Story.ledger_of_assets ha
  have hassets : (Value.entity .assets slots).Tidy := hslots ▸ Story.tidy_root h .assets
  exact tidy_list.1 (hassets.field? hget)

theorem tidy_setLedger (h : story.toEntity.Tidy) (ha : story.assets.IsAssets)
    (hxs : ∀ e ∈ xs, e.Tidy) : (setLedger story xs).toEntity.Tidy := by
  obtain ⟨slots, hslots, hget, -⟩ := Story.ledger_of_assets ha
  have hassets := Story.tidy_root h .assets
  have hfield : story.assets.field? "cash_ledger" = some (.list (ledger story)) := by
    rw [hslots]
    exact hget
  exact Story.tidy_setRoot (r := .assets) h (hassets.setField hfield (.list hxs))

theorem tidy_withBalance {e : Value} {g : Holding} (hg : e.holding? = some g) (h : e.Tidy)
    (n : Number) : (e.withBalance n).Tidy := by
  obtain ⟨slots, rfl, -, hbalance⟩ := holding?_eq.1 hg
  exact (Assign.tidy_documented h).put_slot (h.suits_of_get? hbalance) (.number n)

theorem tidy_newEntry (holder : String) {amount : Number} (h : amount.IsBalance) :
    (newEntry holder amount).Tidy := by
  refine Schema.tidy_closed.of_kind rfl (.inl ⟨_, isDocument_mapping.2 ⟨by simp [Table.keys], ?_⟩,
    validate_newEntry holder h⟩)
  simp [Value.isDocument]

theorem entryWise_tidy : EntryWise (fun story => story.toEntity.Tidy) Value.Tidy where
  entries hsound h := tidy_ledger h hsound.entries
  setLedger hsound h := tidy_setLedger h hsound.entries
  withBalance := tidy_withBalance
  newEntry := tidy_newEntry

/-- A story with a sound ledger is tidy after a delta of a document, whatever comes of it. -/
theorem tidy_perform (h : story.toEntity.Tidy) (hsound : story.Sound)
    (hd : delta.value.isDocument = true) : (perform story delta).1.toEntity.Tidy := by
  unfold perform
  split
  · exact entryWise_tidy.transfer hsound h
  · exact amendPath_keeps (P := fun s => s.toEntity.Tidy) h fun _ hplace => tidy_amend hplace h hd

end Delta

end StoryWorld
