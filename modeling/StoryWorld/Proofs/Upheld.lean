import StoryWorld.Proofs.Setting
import StoryWorld.Proofs.Standing

/-!
Deltas leave a story standing.

A path goes through what the values on its way hold, unless a name on it is that of something an
entity computes or has built in, which comes before an extra field of the name. At a place that a
path reaches through what is held, whatever a delta of a document does there leaves something that
can stand for what was there; a transfer only changes balances and adds an entry. So a story that
was read stands after every delta that goes on so.
-/

namespace StoryWorld

/-! ### Paths through what is held -/

namespace Locate

/-- Whether each step that look-ups make leads to something that is held. -/
def unshadowed (path : String) : Value → List Lookup → Bool
  | _, [] => true
  | v, l :: ls =>
    match find path v l with
    | .error _ => true
    | .ok s =>
      s.isHeld &&
        match v.read s with
        | .ok w => unshadowed path w ls
        | .error _ => true

variable {path : String} {v w : Value} {l : Lookup} {ls : List Lookup} {s : Step}
  {steps : List Step}

theorem unshadowed_cons (hs : find path v l = .ok s) : unshadowed path v (l :: ls) = true ↔
    s.isHeld = true ∧ ∀ w, v.read s = .ok w → unshadowed path w ls = true := by
  rw [unshadowed, hs]
  simp only [Bool.and_eq_true]
  refine and_congr_right fun _ => ?_
  cases v.read s <;> simp

theorem Leads.isHeld (h : Leads path v ls steps) (hu : unshadowed path v ls = true) :
    ∀ s ∈ steps, s.isHeld = true := by
  induction h with
  | last h => simpa using ((unshadowed_cons h).1 hu).1
  | next h hw hrest ih =>
    obtain ⟨hs, hmore⟩ := (unshadowed_cons h).1 hu
    exact List.forall_mem_cons.2 ⟨hs, ih (hmore _ hw)⟩

theorem unshadowed_of_append {more : List Lookup} : ∀ {ls : List Lookup} {v : Value},
    unshadowed path v (ls ++ more) = true → unshadowed path v ls = true
  | [], _, _ => rfl
  | l :: ls, v, hu => by
    cases hs : find path v l with
    | error fault => rw [unshadowed, hs]
    | ok s =>
      rw [List.cons_append, unshadowed_cons hs] at hu
      rw [unshadowed_cons hs]
      exact hu.imp_right fun hrest w hw => unshadowed_of_append (hrest w hw)

/-- Further look-ups go on through what is held. -/
theorem Leads.unshadowed_after {more : List Lookup} (h : Leads path v ls steps)
    (hw : v.follow steps = .ok w) (hu : unshadowed path v (ls ++ more) = true) :
    unshadowed path w more = true := by
  induction h with
  | last h =>
    obtain ⟨x, hx, hnil⟩ := Value.follow_cons.1 hw
    obtain rfl : x = w := by simpa [Value.follow] using hnil
    exact ((unshadowed_cons h).1 hu).2 _ hx
  | next h hx hrest ih =>
    obtain ⟨y, hy, hfollow⟩ := Value.follow_cons.1 hw
    obtain rfl := Except.ok.inj (hx.symm.trans hy)
    exact ih hfollow (((unshadowed_cons h).1 hu).2 _ hx)

end Locate

namespace Place

variable {story : Story} {place : Place} {path : String} {old : Value}

/-- Whether a path goes through what is held only: no name on it is shadowed by something that an
entity computes or has built in. -/
def unshadowed (story : Story) (path : String) : Bool :=
  match Segment.split path.toList with
  | [] => true
  | first :: rest =>
    match Root.ofName? (String.ofList first), Segment.parseAll path rest with
    | some root, .ok segments =>
      Locate.unshadowed path (story.root root) (segments.flatMap Locate.lookups)
    | _, _ => true

theorem isHeld_of_resolve (hu : unshadowed story path = true)
    (h : resolve story path = .ok place) : ∀ s ∈ place.steps, s.isHeld = true := by
  obtain ⟨parts, segments, hsplit, hparse, hlocate⟩ := resolve_ok.1 h
  obtain ⟨-, hleads⟩ := Locate.locate_ok.1 hlocate
  rw [unshadowed, hsplit] at hu
  simp only [String.ofList_toList, Root.ofName?_name, hparse] at hu
  exact hleads.isHeld hu

/-- Through what is held no path reaches an entity as a whole. -/
theorem not_own_of_isHeld (hs : ∀ s ∈ place.steps, s.isHeld = true) :
    Step.builtin Kind.ownName ∉ place.steps :=
  fun hmem => nomatch hs _ hmem

end Place

/-! ### What an assignment leaves -/

namespace Assign

open Value

variable {kind : Kind} {slots : List (Slot × Value)} {slot : Slot} {value old w : Value}
  {step : Step}

theorem standing_settled (h : IsStanding kind slots) (hslot : slot ∈ Table.keys slots)
    (hdocumented : slot.isDocumented = true)
    (hdeclared : ∀ f ∈ kind.fields, slot = .field f.1.name → Stands f.2 value ∧
      ∀ n, value = .number n → f.2 = .number)
    (hothers : (∀ name, slot ≠ .field name) → value.isDocument = true) :
    IsStanding kind (Table.put slot value (slots.filter documented)) :=
  h.documented.put (.inl (SlotsFit.mem_keys_documented.2 ⟨hslot, hdocumented⟩))
    (fun f hf hname => (hdeclared f hf hname).imp_right fun hn _ => hn) hothers

/-- An entity stands with what settles in it, if that can stand there. -/
theorem succeeds_settle (hslot : slot ∈ Table.keys slots) (hdocumented : slot.isDocumented = true)
    (hdeclared : IsStanding kind slots → ∀ f ∈ kind.fields, slot = .field f.1.name →
      Stands f.2 value ∧ ∀ n, value = .number n → f.2 = .number)
    (hothers : (∀ name, slot ≠ .field name) → value.isDocument = true) :
    Succeeds (.entity kind slots) (settle kind slots slot value).1 := by
  unfold settle
  split
  · exact succeeds_entity fun h => standing_settled h hslot hdocumented (hdeclared h) hothers
  · exact .refl _

/-- An entity in which a document was assigned to a part of its document stands. -/
theorem succeeds_toEntity (hslot : slot ∈ Table.keys slots) (hv : value.isDocument = true) :
    Succeeds (.entity kind slots) (toEntity kind slots (.slot slot) value).1 := by
  have hattach : ∀ name, Succeeds (.entity kind slots)
      (.entity kind (Table.put (.attached name) value slots)) := fun name =>
    succeeds_entity fun h => h.put (.inr ⟨name, rfl⟩) (by simp) fun _ => hv
  cases slot with
  | attached name => exact hattach name
  | given => exact succeeds_entity fun h => absurd hslot h.fits.given
  | extra name =>
    rw [toEntity]
    split
    · exact hattach name
    · split
      · exact succeeds_settle hslot rfl (by simp) fun _ => hv
      · exact succeeds_entity fun h => h.put (.inl hslot) (by simp) fun _ => hv
  | field name =>
    rw [toEntity]
    split
    · unfold guardedField
      split
      · exact .refl _
      · rename_i hk _ f shape hfield
        split
        · rename_i v hread
          refine succeeds_settle hslot rfl (fun h g hg hname => ?_) fun hname =>
            absurd rfl (hname name)
          -- The field that the value was read by is the one of the slot.
          have hfind := (Schema.inOrder_kind h.inStory).find? hg
          obtain rfl : name = g.1.name := Slot.field.inj hname
          obtain rfl : (f, shape) = g := Option.some.inj (hfield.symm.trans hfind)
          obtain ⟨u, hu, hcheck⟩ := Verdict.andThen_accepted.1 (Verdict.under_accepted.1 hread)
          have hkeeps := (Schema.storableFields_kind h.inStory _ hg).1.keeps
          obtain rfl := Rule.eq_of_check hkeeps hcheck
          have hheld : Schema.Held shape v := .inl ⟨value, hv, hu⟩
          refine ⟨Schema.stands_of_field h.inStory hg hheld, ?_⟩
          rintro n rfl
          exact Schema.eq_number_of_held hk hg hheld
        · exact .refl _
        · exact .refl _
    · rename_i hk
      refine succeeds_entity fun h => h.put (.inl hslot) (fun f _ _ => ⟨.document hv, ?_⟩) ?_
      · exact fun hguarded => absurd hguarded hk
      · exact fun hname => absurd rfl (hname name)

/-- What holds a place stands with something assigned to the place: a document, or an item of a list
that stands for the one before. -/
theorem succeeds_assign (hs : step.isHeld = true) (hold : w.read step = .ok old)
    (hv : value.isDocument = true ∨ (∃ i, step = .item i) ∧ StandsFor old value) :
    Succeeds w (assign w step value).1 := by
  rcases read_held hs hold with ⟨kind, slots, n, rfl, rfl, hget⟩ | ⟨es, k, rfl, rfl, hget⟩ |
    ⟨xs, i, rfl, rfl, hget⟩
  · have hslot := Table.mem_keys_of_get? hget
    exact succeeds_toEntity hslot (hv.resolve_right (by simp))
  · exact succeeds_put_key hget (standsFor_document (hv.resolve_right (by simp)))
  · exact succeeds_set_item hget (hv.elim standsFor_document And.right)

end Assign

/-! ### What a delta at a place leaves -/

namespace Story

/-- A story whose roots hold what can stand in them. None of them is a mapping, which could be taken
for a wrapped part. -/
structure Stands (story : Story) : Prop where
  whole : Value.Stands Kind.worldState.shape story.toEntity
  unwrapped : ∀ r es, story.root r ≠ .mapping es

theorem Stands.root {story : Story} (h : story.Stands) (r : Root) :
    ∃ shape, Value.Stands shape (story.root r) :=
  Value.Stands.read h.whole rfl (story.read_root r)

/-- A story stands with something else at a root that can stand for what was there. -/
theorem Stands.setRoot {story : Story} (h : story.Stands) {r : Root} {v : Value}
    (hv : Value.Succeeds (story.root r) v) : (story.setRoot r v).Stands where
  whole := by
    rw [toEntity_setRoot]
    exact (hv.put rfl (story.read_root r)).stands _ h.whole
  unwrapped s es heq := by
    by_cases hs : s = r
    · subst hs
      rw [root_setRoot_self] at heq
      obtain ⟨fs, hfs⟩ := hv.form es heq
      exact h.unwrapped s fs hfs
    · rw [root_setRoot_of_ne story hs] at heq
      exact h.unwrapped s es heq

/-- The roots of a story that was read are lists and entities. -/
theorem root_ne_mapping_of_held {story : Story}
    (h : Schema.Held Kind.worldState.shape story.toEntity) (r : Root) (es : List (String × Value)) :
    story.root r ≠ .mapping es := by
  have hget : story.toEntity.get r.name = .ok (story.root r) := by cases r <;> rfl
  have hlist : ∀ f item, Kind.worldState.field? r.name = some f → f.2 = .list item →
      story.root r ≠ .mapping es := by
    intro f item hf hshape heq
    obtain ⟨x, hx, hheld⟩ := Schema.get_of_held r.name rfl hf h
    obtain rfl := Except.ok.inj (hget.symm.trans hx)
    obtain ⟨ys, hys, -⟩ := Schema.held_list (hshape ▸ hheld)
    simp [heq] at hys
  have hrecord : ∀ f (kind : Kind), Kind.worldState.field? r.name = some f → f.2 = kind.shape →
      kind.inStory = true → story.root r ≠ .mapping es := by
    intro f kind hf hshape hkind heq
    obtain ⟨x, hx, hheld⟩ := Schema.get_of_held r.name rfl hf h
    obtain rfl := Except.ok.inj (hget.symm.trans hx)
    obtain ⟨value, extra, -, hentity, -⟩ := Schema.heldEntity_of_validate
      (Schema.inOrder_kind hkind) (Schema.unknown_of_inStory hkind) (hshape ▸ hheld)
    simp [heq] at hentity
  cases r with
  | world => exact hrecord _ .world rfl rfl rfl
  | assets => exact hrecord _ .assets rfl rfl rfl
  | constraints => exact hrecord _ .constraints rfl rfl rfl
  | _ => exact hlist _ _ rfl rfl

/-- A story that was read stands. -/
theorem stands_of_read {document : Value} {story : Story} (hd : document.isDocument = true)
    (h : read document = .ok story) : story.Stands :=
  ⟨Schema.stands_of_kind rfl (held_of_read hd h), root_ne_mapping_of_held (held_of_read hd h)⟩

end Story

namespace Place

variable {story : Story} {place : Place} {old new w : Value}

theorem read_ok : place.read story = .ok old ↔
    ∃ w, place.container story = .ok w ∧ w.read place.last = .ok old := Outcome.bind_ok

theorem isHeld_iff : (∀ s ∈ place.steps, s.isHeld = true) ↔
    (∀ s ∈ place.before, s.isHeld = true) ∧ place.last.isHeld = true := by
  rw [steps, List.forall_mem_append, List.forall_mem_singleton]

variable (hs : ∀ s ∈ place.steps, s.isHeld = true)
include hs

/-- A story stands with another value in what holds a place that can stand for it. -/
theorem stands_setContainer (h : story.Stands) (hw : place.container story = .ok w)
    (hnew : Value.Succeeds w new) : (place.setContainer story new).Stands :=
  h.setRoot (hnew.replace (isHeld_iff.1 hs).1 hw)

/-- Putting something at a place changes what holds the place. -/
theorem put_eq_setContainer (hw : place.container story = .ok w)
    (hold : w.read place.last = .ok old) :
    place.put story new = place.setContainer story (w.put place.last new) := by
  obtain ⟨hbefore, hlast⟩ := isHeld_iff.1 hs
  rw [put, setContainer, Value.replace_append_held hbefore hw, Value.replace_cons_held hlast hold]
  rfl

theorem stands_put (h : story.Stands) (hold : place.read story = .ok old)
    (hnew : Value.Succeeds old new) : (place.put story new).Stands := by
  obtain ⟨w, hw, hread⟩ := read_ok.1 hold
  rw [put_eq_setContainer hs hw hread]
  exact stands_setContainer hs h hw (hnew.put (isHeld_iff.1 hs).2 hread)

/-- A story stands with a document written at a place, or with an item of a list that stands for the
one before. -/
theorem stands_write (h : story.Stands) (hold : place.read story = .ok old) (path : String)
    (hv : new.isDocument = true ∨ (∃ i, place.last = .item i) ∧ Value.StandsFor old new) :
    (place.write story path new).1.Stands := by
  obtain ⟨w, hw, hread⟩ := read_ok.1 hold
  rw [write, hw]
  exact stands_setContainer hs h hw (Assign.succeeds_assign (isHeld_iff.1 hs).2 hread hv)

end Place

namespace Delta

open Value

variable {story : Story} {place : Place} {delta : Delta} {v x old : Value} {xs : List Value}
  {kind : Kind}

theorem held_of_fit (hd : delta.value.isDocument = true) (h : fit kind delta = .ok v) :
    Schema.Held kind.shape v := by
  unfold fit at h
  split at h
  · cases h
  · exact .inl ⟨delta.value, hd, Verdict.outcome_ok.1 h⟩

/-- What setting writes is the value of the delta, or an entity where one of its kind is an item. -/
theorem replacement_ok (h : replacement story place delta = .ok v) :
    v = delta.value ∨ ∃ i kind slots, place.last = .item i ∧
      place.read story = .ok (.entity kind slots) ∧ fit kind delta = .ok v := by
  unfold replacement at h
  split at h
  · rename_i i hlast
    obtain ⟨old, hold, h⟩ := Outcome.bind_ok.1 h
    split at h
    · exact .inr ⟨i, _, _, hlast, hold, h⟩
    · exact .inl (Outcome.pure_ok.1 h).symm
  · exact .inl (Except.ok.inj h).symm

theorem standsFor_fit {slots : List (Slot × Value)} (hd : delta.value.isDocument = true)
    (h : fit kind delta = .ok v) : StandsFor (.entity kind slots) v := by
  intro shape hold
  obtain ⟨hcore, hstanding⟩ := stands_entity.1 hold
  refine .of_core ?_
  rw [hcore]
  exact Schema.stands_of_kind hstanding.inStory (held_of_fit hd h)

/-- The list of a field that is declared to hold entities, with one more of them. -/
theorem succeeds_append_item {w : Value} (hw : place.container story = .ok w)
    (hlast : w.read place.last = .ok (.list xs)) (hitem : place.itemKind? story = some kind)
    (hx : kind.inStory = true → Stands kind.shape x) :
    Succeeds w (w.put place.last (.list (xs ++ [x]))) := by
  unfold Place.itemKind? at hitem
  split at hitem
  · rename_i container slots name hcontainer hstep
    obtain rfl := Except.ok.inj (hw.symm.trans hcontainer)
    rw [hstep] at hlast ⊢
    have hget := Value.read_slot.1 hlast
    split at hitem
    · rename_i f item fields hfield
      obtain rfl := Option.some.inj hitem
      refine succeeds_entity fun h => ?_
      have hmem := List.mem_of_find?_eq_some hfield
      obtain ⟨-, hkind, -, rfl⟩ := Schema.storableFields_kind h.inStory _ hmem
      refine h.put (.inl (Table.mem_keys_of_get? hget)) (fun g hg hname => ?_)
        fun hname => absurd rfl (hname name)
      have hfind := (Schema.inOrder_kind h.inStory).find? hg
      obtain rfl : name = g.1.name := Slot.field.inj hname
      obtain rfl : (f, Shape.list (.record item item.fields)) = g :=
        Option.some.inj (hfield.symm.trans hfind)
      refine ⟨.list fun y hy => ?_, by simp⟩
      rcases List.mem_append.1 hy with hy | hy
      · rcases stands_list.1 (h.declared _ hg _ hget) with hxs | ⟨_, ⟨⟩, hxs⟩
        · exact .document (isDocument_list.1 hxs y hy)
        · exact hxs y hy
      · obtain rfl := List.mem_singleton.1 hy
        exact hx hkind
    · cases hitem
  · cases hitem

theorem stands_appended (hs : ∀ s ∈ place.steps, s.isHeld = true) (h : story.Stands)
    (hd : delta.value.isDocument = true) (hxs : appended story place delta = .ok xs) :
    (place.put story (.list xs)).Stands := by
  obtain ⟨ys, hys, hxs⟩ := Outcome.bind_ok.1 hxs
  obtain ⟨x, hx, hxs⟩ := Outcome.bind_ok.1 hxs
  obtain rfl := Outcome.pure_ok.1 hxs
  have hold := requireList_ok hys
  unfold newItem at hx
  split at hx
  · rename_i kind hkind
    obtain ⟨w, hw, hread⟩ := Place.read_ok.1 hold
    rw [Place.put_eq_setContainer hs hw hread]
    refine Place.stands_setContainer hs h hw (succeeds_append_item hw hread hkind fun hk => ?_)
    exact Schema.stands_of_kind hk (held_of_fit hd hx)
  · obtain rfl := Except.ok.inj hx
    refine Place.stands_put hs h hold (succeeds_list fun y hy => ?_)
    rcases List.mem_append.1 hy with hy | hy
    · exact .inl ⟨y, hy, fun _ h => h⟩
    · obtain rfl := List.mem_singleton.1 hy
      exact .inr hd

theorem stands_removed (hs : ∀ s ∈ place.steps, s.isHeld = true) (h : story.Stands)
    (hxs : removed story place delta = .ok xs) : (place.put story (.list xs)).Stands := by
  obtain ⟨ys, hold, hsub⟩ := removed_ok hxs
  exact Place.stands_put hs h hold (succeeds_list fun x hx => .inl ⟨x, hsub x hx, fun _ h => h⟩)

/-- Whatever a delta of a document does at a place, the story stands. -/
theorem stands_amend (hs : ∀ s ∈ place.steps, s.isHeld = true) (h : story.Stands)
    (hd : delta.value.isDocument = true) (hold : place.read story = .ok old) :
    (amend story place delta).1.Stands := by
  refine amend_keeps h (fun v hv => Place.stands_write hs h hold delta.path ?_)
    (fun f v hv => Place.stands_write hs h hold delta.path ?_)
    (fun xs hxs => stands_appended hs h hd hxs) fun xs hxs => stands_removed hs h hxs
  · rcases replacement_ok hv with rfl | ⟨i, kind, slots, hlast, hread, hfit⟩
    · exact .inl hd
    · obtain rfl := Except.ok.inj (hold.symm.trans hread)
      exact .inr ⟨⟨i, hlast⟩, standsFor_fit hd hfit⟩
  · obtain ⟨n, rfl⟩ := computed_ok hv
    exact .inl rfl

/-! ### What a transfer leaves -/

theorem stands_ledger (h : story.Stands) (ha : story.assets.IsAssets) :
    ∀ e ∈ ledger story, Stands Kind.ledgerEntry.shape e := by
  obtain ⟨slots, hslots, hget, -⟩ := Story.ledger_of_assets ha
  obtain ⟨shape, hassets⟩ := h.root .assets
  have hassets' : Stands shape (.entity .assets slots) := hslots ▸ hassets
  have hledger := (stands_entity.1 hassets').2.declared
    (Shape.many "cash_ledger" Kind.ledgerEntry.shape)
    (by simp [Kind.fields, Fields.assets, Kind.shape])
    _ hget
  rcases stands_list.1 hledger with hd | ⟨_, ⟨⟩, hentries⟩
  · exact fun e he => .document (isDocument_list.1 hd e he)
  · exact hentries

theorem stands_setLedger (h : story.Stands) (ha : story.assets.IsAssets)
    (hxs : ∀ e ∈ xs, Stands Kind.ledgerEntry.shape e) : (setLedger story xs).Stands := by
  obtain ⟨slots, hslots, hget, -⟩ := Story.ledger_of_assets ha
  refine h.setRoot (r := .assets) ?_
  show Succeeds story.assets (story.assets.setField "cash_ledger" (.list xs))
  rw [hslots]
  refine succeeds_entity fun hassets => hassets.put
    (.inl (Table.mem_keys_of_get? hget)) (fun f hf hname => ?_) (by simp)
  have hfind := (Schema.inOrder_kind hassets.inStory).find? hf
  rw [← Slot.field.inj hname] at hfind
  obtain rfl := Option.some.inj hfind
  exact ⟨.list hxs, by simp⟩

/-- An entry stands with another balance. -/
theorem stands_withBalance {e : Value} {g : Holding} (hg : e.holding? = some g)
    (h : Stands Kind.ledgerEntry.shape e) (n : Number) :
    Stands Kind.ledgerEntry.shape (e.withBalance n) := by
  obtain ⟨slots, rfl, -, hbalance⟩ := holding?_eq.1 hg
  obtain ⟨hcore, hstanding⟩ := stands_entity.1 h
  refine stands_entity.2 ⟨hcore, Assign.standing_settled hstanding
    (Table.mem_keys_of_get? hbalance) rfl (fun f hf hname => ?_) (by simp)⟩
  have hfind := (Schema.inOrder_kind hstanding.inStory).find? hf
  rw [← Slot.field.inj hname] at hfind
  obtain rfl := Option.some.inj hfind
  exact ⟨.document rfl, fun _ _ => rfl⟩

/-- A new entry is what its document is read as. -/
theorem validate_newEntry (holder : String) {amount : Number} (h : amount.IsBalance) :
    Schema.validate Kind.ledgerEntry.shape
      (.mapping [("holder", .text holder), ("denarii", .number amount)]) =
        .accepted (newEntry holder amount) := by
  have hread : Schema.validate Kind.ledgerEntry.shape
      (.mapping [("holder", .text holder), ("denarii", .number amount)]) =
        (((Verdict.accepted (Value.text holder)).both (fun v vs => (Slot.field "holder", v) :: vs)
          (((Rule.checkBalance amount).under "denarii").both
            (fun v vs => (Slot.field "denarii", v) :: vs) (.accepted []))).both (· ++ ·)
              (.accepted [])).andThen (Schema.checkWhole .ledgerEntry) := rfl
  rw [hread, Schema.checkBalance_eq h]
  rfl

theorem stands_newEntry (holder : String) {amount : Number} (h : amount.IsBalance) :
    Stands Kind.ledgerEntry.shape (newEntry holder amount) := by
  refine Schema.stands_of_kind rfl (.inl ⟨_, isDocument_mapping.2 ⟨by simp [Table.keys], ?_⟩,
    validate_newEntry holder h⟩)
  simp [Value.isDocument]

theorem entryWise_stands : EntryWise Story.Stands (Stands Kind.ledgerEntry.shape) where
  entries hsound h := stands_ledger h hsound.entries
  setLedger hsound h := stands_setLedger h hsound.entries
  withBalance := stands_withBalance
  newEntry := stands_newEntry

end Delta

/-! ### Runs of deltas -/

/-- Steps through what is held can be followed, to something that stands. -/
theorem Locate.Leads.follow_stands {path : String} {v : Value} {ls : List Lookup}
    {steps : List Step} (h : Leads path v ls steps) (hv : ∃ shape, Value.Stands shape v)
    (hs : ∀ s ∈ steps, s.isHeld = true) :
    ∃ w, v.follow steps = .ok w ∧ ∃ shape, Value.Stands shape w := by
  have hfind : ∀ v l s, (∃ shape, Value.Stands shape v) → s.isHeld = true →
      find path v l = .ok s → ∃ w, v.read s = .ok w ∧ ∃ shape, Value.Stands shape w := by
    rintro v l s ⟨shape, hv⟩ hs hfind
    obtain ⟨w, hw⟩ := find_read hv.holdsFields hs hfind
    exact ⟨w, hw, hv.read hs hw⟩
  exact h.follow_of hfind hv hs

/-- A story that stands, with a sound ledger and nothing that guards its fields outside the
assets. -/
structure Story.Standing (story : Story) : Prop where
  stands : story.Stands
  apart : story.Apart
  sound : story.Sound

theorem Story.standing_of_read {document : Value} {story : Story} (hd : document.isDocument = true)
    (h : read document = .ok story) : story.Standing :=
  ⟨stands_of_read hd h, apart_of_read (Value.isPlain_of_isDocument document hd) h, sound_of_read h⟩

/-- A place that a path reaches through what is held can be read. -/
theorem Place.read_of_stands {story : Story} {place : Place} {path : String} (h : story.Stands)
    (hplace : resolve story path = .ok place) (hs : ∀ s ∈ place.steps, s.isHeld = true) :
    ∃ v, place.read story = .ok v := by
  obtain ⟨_, _, -, -, hlocate⟩ := resolve_ok.1 hplace
  obtain ⟨-, hleads⟩ := Locate.locate_ok.1 hlocate
  obtain ⟨v, hv, -⟩ := hleads.follow_stands (h.root place.root) hs
  exact ⟨v, by rw [read_eq, hv]⟩

namespace Delta

variable {story : Story} {delta : Delta}

/-- Whether the path of a delta, if it has one, goes through what is held only. -/
def Unshadowed (story : Story) (delta : Delta) : Prop :=
  delta.op ≠ .transfer → Place.unshadowed story delta.path = true

instance (story : Story) (delta : Delta) : Decidable (Unshadowed story delta) :=
  inferInstanceAs (Decidable (_ → _))

theorem stands_amendPath (h : story.Stands) (hd : delta.value.isDocument = true)
    (hu : Place.unshadowed story delta.path = true) : (amendPath story delta).1.Stands := by
  refine amendPath_keeps h fun place hplace => ?_
  have hs := Place.isHeld_of_resolve hu hplace
  obtain ⟨old, hold⟩ := Place.read_of_stands h hplace hs
  exact stands_amend hs h hd hold

/-- A story stands after a delta of a document, whatever comes of it, if its path goes through what
is held. -/
theorem standing_perform (h : story.Standing) (hd : delta.value.isDocument = true)
    (hu : Unshadowed story delta) : (perform story delta).1.Standing := by
  have hapart := apart_perform (Value.isPlain_of_isDocument delta.value hd) h.apart
  by_cases hop : delta.op = .transfer
  · rw [perform_transfer hop] at hapart ⊢
    exact ⟨entryWise_stands.transfer h.sound h.stands, hapart, sound_transfer h.sound⟩
  · rw [perform_path hop] at hapart ⊢
    exact ⟨stands_amendPath h.stands hd (hu hop), hapart, sound_amendPath_of (fun _ hplace _ =>
      Place.not_own_of_isHeld (Place.isHeld_of_resolve (hu hop) hplace)) h.sound⟩

end Delta

end StoryWorld
