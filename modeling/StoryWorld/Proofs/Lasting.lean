import StoryWorld.Proofs.Accounts
import StoryWorld.Proofs.Along
import StoryWorld.Proofs.Recovered

/-!
Stories that are loaded again after deltas.

A story is loaded again from what it is saved as just if it is read again as an entity. A delta that
is applied changes it along one way: that to its place, or that to the cash ledger. So a story that
was loaded again before is loaded again after the delta just if what the innermost slot on the way
holds now is read again, and after a batch if that is so of each delta in its turn.
-/

namespace StoryWorld

theorem Outcome.exists_ok {α : Type} {o : Outcome α} (h : o.toOption.isSome = true) :
    ∃ a, o = .ok a := by
  cases o with
  | ok a => exact ⟨a, rfl⟩
  | error fault => cases h

/-! ### Stories as entities -/

namespace Story

open Value

variable {story : Story} {saved w : Value} {text : List Char} {way : List Step}

theorem load_ok_iff (hd : saved.isDocument = true) (h : Json.canonical? saved = some text) :
    (∃ again, load text = .ok again) ↔
      ∃ w, Schema.validate Kind.worldState.shape saved.readBack = .accepted w := by
  simp only [load, Json.read?_of_canonical? hd h, read, Outcome.map_ok, Schema.read,
    Verdict.outcome_ok]
  constructor
  · rintro ⟨again, w, hw, -⟩
    exact ⟨w, hw⟩
  · rintro ⟨w, hw⟩
    exact ⟨_, w, hw, rfl⟩

/-- A document is that of a story that is loaded again, if it nests numbers that can be stored not
too deep. -/
theorem exists_reloaded (document : Value) (p : Story → Prop) [DecidablePred p]
    (hd : document.isDocument = true) (h : (read document).toOption.map (fun story => decide
      (((∀ n ∈ story.toEntity.numbers, n.isStorable = true) ∧
        story.toEntity.nesting ≤ Json.writeDepth) ∧ p story)) = some true) :
    ∃ story, read document = .ok story ∧ (∃ again, story.reload = .ok again) ∧ p story := by
  obtain ⟨story, hread, ⟨hn, hnesting⟩, hp⟩ := exists_read document _ h
  obtain ⟨again, hagain, -⟩ := reload_of_nesting hd hread hn hnesting
  exact ⟨story, hread, ⟨again, hagain⟩, hp⟩

/-- A story is loaded again just if it is read again as an entity. -/
theorem reload_iff (h : story.Stands) : (∃ again, story.reload = .ok again) ↔
    Schema.rereads Json.writeDepth Kind.worldState.shape story.toEntity = true := by
  have hstanding := (stands_entity.1 h.whole).2
  have halike := Schema.storesAlike_of_stands h.whole
  have hroom : Json.writeDepth + 1 < 256 := by decide
  simp only [Schema.rereads_iff, Schema.reread?_iff_of_room 256 halike hroom]
  constructor
  · rintro ⟨again, hagain⟩
    obtain ⟨text, hsave, hload⟩ := Outcome.bind_ok.1 hagain
    obtain ⟨saved, hsaved, htext⟩ := save_ok.1 hsave
    obtain ⟨hd, hwide⟩ := halike _ _ hsaved
    have hwritable : Json.writable Json.writeDepth saved = true := by
      rw [Json.writable, ← Json.canonical?, htext]
      rfl
    have hsaved' := hwide _ 256 hwritable hroom
    obtain ⟨w, hw⟩ := (load_ok_iff hd htext).1 ⟨again, hload⟩
    rw [Schema.kept_eq hsaved']
    exact ⟨w, ⟨saved, hsaved'⟩, hwritable, hw⟩
  · rintro ⟨w, ⟨saved, hsaved⟩, hwritable, hw⟩
    rw [Schema.kept_eq hsaved] at hwritable hw
    obtain ⟨hd, -⟩ := halike _ _ hsaved
    have hnarrow : Schema.stored Kind.worldState.shape story.toEntity = .ok saved :=
      Schema.storedIn_standing_room hstanding
        (fun f hf => Schema.storesAlike_of_stands (hstanding.stands_heldIn hf)) hsaved hwritable
        (by decide)
    obtain ⟨text, htext⟩ := Option.isSome_iff_exists.1 hwritable
    obtain ⟨again, hagain⟩ := (load_ok_iff hd htext).2 ⟨w, hw⟩
    exact ⟨again, Outcome.bind_ok.2 ⟨text, save_ok.2 ⟨saved, hnarrow, htext⟩, hagain⟩⟩

theorem root_of_field : ∀ f ∈ Fields.worldState, ∃ r : Root, r.name = f.1.name := by
  have hall : ∀ f ∈ Fields.worldState, (Root.ofName? f.1.name).isSome = true := by decide
  intro f hf
  obtain ⟨r, hr⟩ := Option.isSome_iff_exists.1 (hall f hf)
  exact ⟨r, Root.name_of_ofName? hr⟩

theorem complete_of_isPlain (h : w.isPlain = true) : w.Complete := by
  have hentity : ∀ kind slots, w ≠ .entity kind slots := by
    rintro kind slots rfl
    exact nomatch (within_entity.1 h).1
  exact ⟨fun slots heq => absurd heq (hentity _ slots),
    fun slots heq => absurd heq (hentity _ slots)⟩

/-- Inside a root of a story there is no story, and the only assets are those of the story. -/
theorem complete_of_root (h : story.Standing) (r : Root) (hs : ∀ s ∈ way, s.isHeld = true)
    (hw : (story.root r).follow way = .ok w) : w.Complete where
  unwrapped slots heq := by
    obtain ⟨-, hstanding⟩ := stands_entity.1 h.stands.whole
    obtain ⟨f, hf, hname⟩ := (hstanding.fits.declared r.name).1
      (Table.mem_keys_of_get? (read_slot.1 (story.read_root r)))
    have hshape : ∀ f ∈ Fields.worldState, f.2.within (· != .worldState) = true := by decide
    have hroot := hstanding.declared f hf _ (hname ▸ read_slot.1 (story.read_root r))
    have hinside := within_follow (hroot.within (hshape f hf)) hw
    rw [heq] at hinside
    exact absurd (within_entity.1 hinside).1 (by decide)
  sound slots heq := by
    -- What holds any place that the way could go on to.
    have hcontainer : (⟨r, way, .slot (.field "cash_ledger")⟩ : Place).container story =
        .ok (.entity .assets slots) := heq ▸ hw
    by_cases hroot : r = .assets
    · have hbeside := (h.stands.root .assets).choose_spec.besideAssets
      rw [heq, ← Place.eq_assets_of_container h.sound.entries hbeside hroot hs hcontainer]
      exact ⟨h.sound.entries, Ledger.flaw?_of_sound h.sound⟩
    · have hinside := Place.within_container h.apart hroot hcontainer
      exact absurd (within_entity.1 hinside).1 (by decide)

/-- All that a story holds is in order as a whole. -/
theorem complete_of_follow (h : story.Standing) (hs : ∀ s ∈ way, s.isHeld = true)
    (hw : story.toEntity.follow way = .ok w) : w.Complete := by
  obtain ⟨-, hstanding⟩ := stands_entity.1 h.stands.whole
  cases way with
  | nil =>
    obtain rfl := Except.ok.inj hw
    refine ⟨fun slots heq f hf es => ?_, fun slots heq => nomatch (entity.inj heq).1⟩
    obtain ⟨r, hr⟩ := root_of_field f hf
    obtain ⟨-, rfl⟩ := entity.inj heq
    rw [heldIn_eq (hr ▸ read_slot.1 (story.read_root r))]
    exact h.stands.unwrapped r es
  | cons s rest =>
    rw [List.forall_mem_cons] at hs
    obtain ⟨x, hx, hrest⟩ := follow_cons.1 hw
    rcases read_held hs.1 hx with ⟨kind, slots, n, heq, rfl, hget⟩ | ⟨_, _, ⟨⟩, -⟩ | ⟨_, _, ⟨⟩, -⟩
    obtain ⟨rfl, rfl⟩ := entity.inj heq
    by_cases hn : ∀ name, n ≠ .field name
    · have hplain := isPlain_of_isDocument x (hstanding.others n x hget hn)
      exact complete_of_isPlain (within_follow hplain hrest)
    · simp only [not_forall, not_not] at hn
      obtain ⟨name, rfl⟩ := hn
      obtain ⟨f, hf, rfl⟩ := (hstanding.fits.declared name).1
        (Table.mem_keys_of_get? hget)
      obtain ⟨r, hr⟩ := root_of_field f hf
      rw [← hr, story.read_root] at hx
      obtain rfl := Except.ok.inj hx
      exact complete_of_root h r hs.2 hrest

end Story

/-! ### The way that a delta changes a story along -/

namespace Assign

open Value

variable {kind : Kind} {slots : List (Slot × Value)} {slot : Slot} {value : Value}

/-- Assigning to a slot leaves what the others hold, apart from what was attached. -/
theorem toEntity_slot (hslot : slot ∈ Table.keys slots) :
    ∃ slots', (toEntity kind slots (.slot slot) value).1 = .entity kind slots' ∧
      SameBeside slot slots slots' := by
  have hput : ∃ slots', Value.entity kind (Table.put slot value slots) = .entity kind slots' ∧
      SameBeside slot slots slots' := ⟨_, rfl, sameBeside_put hslot value⟩
  have hattach : ∀ name, isPrivate name = true →
      SameBeside slot slots (Table.put (.attached name) value slots) := by
    refine fun name hprivate => ⟨fun m _ hm => Table.get?_put_of_ne (hm name) _ _, ?_⟩
    intro other hother
    rcases Table.mem_keys_put.1 hother with heq | hother
    · obtain rfl := Slot.attached.inj heq
      exact .inr hprivate
    · exact .inl hother
  have hsettle : ∀ value, ∃ slots', (settle kind slots slot value).1 = .entity kind slots' ∧
      SameBeside slot slots slots' := by
    intro value
    unfold settle
    split
    · next hnotes =>
      refine ⟨_, rfl, fun m hm hattached => ?_, fun name hname => ?_⟩
      · rw [Table.get?_put_of_ne hm]
        cases m with
        | attached name => exact absurd rfl (hattached name)
        | given =>
          have hgiven : Table.get? .given slots = none := by
            rw [Table.get?_eq_none_iff, ← Table.has_iff_mem]
            simpa [notes] using hnotes
          rw [hgiven, Table.get?_eq_none_iff]
          exact fun hmem => Bool.false_ne_true (SlotsFit.mem_keys_documented.1 hmem).2
        | _ => exact Table.get?_filter (fun _ => rfl) slots
      · rcases Table.mem_keys_put.1 hname with rfl | hname
        · exact .inl hslot
        · exact .inl (SlotsFit.mem_keys_documented.1 hname).1
    · exact ⟨slots, rfl, .refl _ _⟩
  cases slot with
  | attached name => exact hput
  | given => exact hput
  | extra name =>
    rw [toEntity]
    split
    · next hprivate => exact ⟨_, rfl, hattach name hprivate⟩
    · split
      · exact hsettle value
      · exact hput
  | field name =>
    rw [toEntity]
    split
    · unfold guardedField
      split
      · exact ⟨slots, rfl, .refl _ _⟩
      · split
        · exact hsettle _
        · exact ⟨slots, rfl, .refl _ _⟩
        · exact ⟨slots, rfl, .refl _ _⟩
    · exact hput

end Assign

namespace Place

open Value

variable {story : Story} {place : Place} {old new w : Value}
  (hs : ∀ s ∈ place.steps, s.isHeld = true)
include hs

theorem isHeld_route : ∀ s ∈ place.route, s.isHeld = true := List.forall_mem_cons.2 ⟨rfl, hs⟩

theorem changedAlong_setContainer (hw : place.container story = .ok w)
    (hlast : ∀ n, place.last = .slot n → ∃ kind slots slots', w = entity kind slots ∧
      new = entity kind slots' ∧ SameBeside n slots slots') :
    ChangedAlong story.toEntity (place.setContainer story new).toEntity place.route := by
  have hbefore : ∀ s ∈ Step.slot (.field place.root.name) :: place.before, s.isHeld = true :=
    List.forall_mem_cons.2 ⟨rfl, (isHeld_iff.1 hs).1⟩
  have hsame : (place.setContainer story new).toEntity =
      story.toEntity.replace (.slot (.field place.root.name) :: place.before) new := by
    rw [setContainer, Story.toEntity_setRoot, replace_cons_held rfl (story.read_root place.root)]
  rw [hsame]
  exact changedAlong_replace hbefore (follow_cons.2 ⟨_, story.read_root place.root, hw⟩) rfl hlast

theorem changedAlong_put (hold : place.read story = .ok old) :
    ChangedAlong story.toEntity (place.put story new).toEntity place.route := by
  obtain ⟨w, hw, hread⟩ := read_ok.1 hold
  rw [put_eq_setContainer hs hw hread]
  refine changedAlong_setContainer hs hw fun n hn => ?_
  rw [hn] at hread ⊢
  obtain ⟨kind, slots, rfl, hget⟩ := entity_of_read hread
  have hmem := Table.mem_keys_of_get? hget
  exact ⟨kind, slots, _, rfl, rfl, sameBeside_put hmem new⟩

theorem changedAlong_write (hold : place.read story = .ok old) (path : String) :
    ChangedAlong story.toEntity (place.write story path new).1.toEntity place.route := by
  obtain ⟨w, hw, hread⟩ := read_ok.1 hold
  rw [write, hw]
  refine changedAlong_setContainer hs hw fun n hn => ?_
  rw [hn] at hread ⊢
  obtain ⟨kind, slots, rfl, hget⟩ := entity_of_read hread
  have hmem := Table.mem_keys_of_get? hget
  obtain ⟨slots', hslots', hsame⟩ := @Assign.toEntity_slot kind slots n new hmem
  exact ⟨kind, slots, slots', rfl, hslots', hsame⟩

end Place

/-- The place of the cash ledger. -/
def Place.cashLedger : Place := ⟨.assets, [], .slot (.field "cash_ledger")⟩

namespace Delta

open Value

variable {story after : Story} {place : Place} {delta : Delta} {old : Value}

/-- A delta that works changes the story along the way to its place. -/
theorem changedAlong_amend (hs : ∀ s ∈ place.steps, s.isHeld = true)
    (hold : place.read story = .ok old) (hok : (amend story place delta).2 = .ok ()) :
    ChangedAlong story.toEntity (amend story place delta).1.toEntity place.route := by
  have hwrite : ∀ value : Outcome Value,
      (writeOutcome story place delta.path value).2 = .ok () →
      ChangedAlong story.toEntity (writeOutcome story place delta.path value).1.toEntity
        place.route := by
    rintro (fault | v) hv
    · cases hv
    · exact Place.changedAlong_write hs hold delta.path
  have hput : ∀ list : Outcome (List Value), (putOutcome story place list).2 = .ok () →
      ChangedAlong story.toEntity (putOutcome story place list).1.toEntity place.route := by
    rintro (fault | xs) hxs
    · cases hxs
    · exact Place.changedAlong_put hs hold
  unfold amend at hok ⊢
  cases hop : delta.op with
  | set =>
    simp only [hop] at hok
    exact hwrite _ hok
  | append =>
    simp only [hop] at hok
    exact hput _ hok
  | remove =>
    simp only [hop] at hok
    exact hput _ hok
  | transfer =>
    simp only [hop] at hok
    exact absurd hok Outcome.refuse_ne_ok
  | add | subtract | multiply =>
    simp only [hop, arithmetic?] at hok
    exact hwrite _ hok

theorem read_cashLedger (h : story.assets.IsAssets) :
    Place.cashLedger.read story = .ok (.list (ledger story)) := by
  obtain ⟨slots, hslots, hget, -⟩ := Story.ledger_of_assets h
  refine Place.read_ok.2 ⟨story.assets, rfl, ?_⟩
  rw [hslots]
  exact read_slot.2 hget

theorem setLedger_eq_put (h : story.assets.IsAssets) (entries : List Value) :
    setLedger story entries = Place.cashLedger.put story (.list entries) := by
  obtain ⟨slots, hslots, hget, -⟩ := Story.ledger_of_assets h
  have hassets : story.assets.setField "cash_ledger" (.list entries) =
      story.assets.replace [.slot (.field "cash_ledger")] (.list entries) := by
    rw [replace_cons_held rfl (hslots ▸ read_slot.2 hget), hslots]
    rfl
  rw [setLedger, hassets]
  rfl

theorem eq_setLedger_of_credited {holder : String} {amount : Number}
    (h : Credited story holder amount after) : ∃ entries, after = setLedger story entries := by
  cases h with
  | entry => exact ⟨_, rfl⟩
  | new => exact ⟨_, rfl⟩

/-- A transfer that is made changes the story along the way to the cash ledger. -/
theorem changedAlong_transfer (h : story.Sound) (hok : (transfer story delta).2 = .ok ()) :
    ChangedAlong story.toEntity (transfer story delta).1.toEntity Place.cashLedger.route := by
  have heffect := transfer_effect h delta
  generalize transfer story delta = r at heffect hok ⊢
  cases heffect with
  | refused fault => cases hok
  | unpaid t fault => cases hok
  | broken t n fault => cases hok
  | made t n after hc hn hb htakes hcredited =>
    obtain ⟨entries, rfl⟩ := eq_setLedger_of_credited hcredited
    rw [rebalanced, Story.setLedger_setLedger, setLedger_eq_put h.entries]
    exact Place.changedAlong_put (by simp [Place.cashLedger, Place.steps, Step.isHeld])
      (read_cashLedger h.entries)

/-! ### What a delta leaves to be read again -/

/-- The place that a delta changes. -/
def place? (story : Story) (delta : Delta) : Option Place :=
  if delta.op = .transfer then some .cashLedger
  else (Place.resolve story delta.path).toOption

/-- Whether a delta, if it is applied, leaves in the innermost slot on the way to its place what is
read again. -/
def lasts (story : Story) (delta : Delta) : Bool :=
  match perform story delta with
  | (after, .ok ()) => (place? story delta).all fun place =>
    after.toEntity.lastsAlong Json.writeDepth place.route
  | (_, .error _) => true

theorem changedAlong_perform (h : story.Standing) (hu : Unshadowed story delta)
    (hok : (perform story delta).2 = .ok ()) : ∃ place, place? story delta = some place ∧
      (∀ s ∈ place.steps, s.isHeld = true) ∧
        ChangedAlong story.toEntity (perform story delta).1.toEntity place.route := by
  by_cases hop : delta.op = .transfer
  · rw [perform_transfer hop] at hok ⊢
    exact ⟨.cashLedger, if_pos hop, by simp [Place.cashLedger, Place.steps, Step.isHeld],
      changedAlong_transfer h.sound hok⟩
  · rw [perform_path hop] at hok ⊢
    rcases amendPath_cases story delta with ⟨fault, heq⟩ | ⟨place, hplace, heq, -⟩
    · rw [heq] at hok
      cases hok
    · rw [heq] at hok ⊢
      have hs := Place.isHeld_of_resolve (hu hop) hplace
      obtain ⟨old, hold⟩ := Place.read_of_stands h.stands hplace hs
      refine ⟨place, ?_, hs, changedAlong_amend hs hold hok⟩
      rw [place?, if_neg hop, hplace]
      rfl

/-- After a delta that is answered, a story that was loaded again is loaded again just if the delta
lasts. -/
theorem reload_perform_iff (h : story.Standing) (hreload : ∃ again, story.reload = .ok again)
    (hd : delta.value.isDocument = true) (hu : Unshadowed story delta)
    (hanswered : (perform story delta).2.Answered) :
    (∃ again, (perform story delta).1.reload = .ok again) ↔ lasts story delta = true := by
  have hafter := standing_perform h hd hu
  cases hok : (perform story delta).2 with
  | error fault =>
    rw [hok] at hanswered
    obtain ⟨code, message, rfl⟩ := Outcome.failsOnly_error.1 hanswered
    rw [perform_refused h.apart hok]
    refine iff_of_true hreload ?_
    unfold lasts
    split
    · rename_i heq
      rw [heq] at hok
      cases hok
    · rfl
  | ok u =>
    obtain ⟨place, hplace, hs, hchanged⟩ := changedAlong_perform h hu hok
    have hheld : ∀ {way}, way <+: place.route → ∀ s ∈ way, s.isHeld = true := fun hway s hmem =>
      Place.isHeld_route hs s (hway.subset hmem)
    have hlasts : lasts story delta =
        (perform story delta).1.toEntity.lastsAlong Json.writeDepth place.route := by
      unfold lasts
      split
      · rename_i heq
        rw [heq, hplace]
        rfl
      · rename_i heq
        rw [heq] at hok
        cases hok
    rw [hlasts, Story.reload_iff hafter.stands]
    exact Schema.rereads_changedAlong hchanged h.stands.whole hafter.stands.whole
      (fun way w hway hw => Story.complete_of_follow h (hheld hway) hw)
      (fun way w hway hw => Story.complete_of_follow hafter (hheld hway) hw)
      ((Story.reload_iff h.stands).1 hreload)

/-! ### Batches -/

/-- A batch that returns goes on from the story that its first delta leaves, and so does any batch
that begins with the same delta. -/
theorem applyEach_next {tag : Tag} {rest : List Delta} {r : BatchResult} (h : story.Apart)
    (hr : (applyEach story tag (delta :: rest)).outcome = .ok r) :
    (perform story delta).2.Answered ∧
      (∀ more, (applyEach story tag (delta :: more)).story =
        (applyEach (perform story delta).1 tag more).story) ∧
      ∃ s, (applyEach (perform story delta).1 tag rest).outcome = .ok s := by
  rcases applyEach_cons h hr with ⟨s, ha, hs, -⟩ | ⟨code, message, s, ha, hs, -⟩
  · rw [apply_story] at hs
    refine ⟨apply_ok_iff.1 ⟨_, ha⟩, fun more => ?_, s, hs⟩
    rw [(applyEach_applied ha more).1, apply_story]
  · have hsame := perform_refused h (apply_refused_iff.1 ha)
    rw [hsame]
    exact ⟨apply_ok_iff.1 ⟨_, ha⟩, fun more => (applyEach_rejected h ha more).1, s, hs⟩

/-- A story that was loaded again is loaded again after every part of a batch from its start just if
each delta lasts in its turn. -/
theorem reload_applyEach_iff {tag : Tag} :
    ∀ {deltas : List Delta} {story : Story} {r : BatchResult},
      story.Standing → (∃ again, story.reload = .ok again) →
      (∀ d ∈ deltas, d.value.isDocument = true) → InTurn Unshadowed story deltas →
      (applyEach story tag deltas).outcome = .ok r →
      ((∀ before, before <+: deltas →
          ∃ again, (applyEach story tag before).story.reload = .ok again) ↔
        InTurn (fun s d => lasts s d = true) story deltas)
  | [], story, r, _, hreload, _, _, _ => by
    refine iff_of_true (fun before hbefore => ?_) trivial
    obtain rfl := List.prefix_nil.1 hbefore
    exact hreload
  | delta :: rest, story, r, h, hreload, hd, hu, hr => by
    rw [List.forall_mem_cons] at hd
    obtain ⟨hanswered, hnext, s, hs⟩ := applyEach_next h.apart hr
    have hone := reload_perform_iff h hreload hd.1 hu.1 hanswered
    have hrest := fun hreload' =>
      reload_applyEach_iff (standing_perform h hd.1 hu.1) hreload' hd.2 hu.2 hs
    rw [InTurn, ← hone]
    constructor
    · intro hall
      have hmore : ∀ more, more <+: rest →
          ∃ again, (applyEach (perform story delta).1 tag more).story.reload = .ok again :=
        fun more hmore => hnext more ▸ hall (delta :: more) (List.cons_prefix_cons.2 ⟨rfl, hmore⟩)
      have hreload' := hmore [] List.nil_prefix
      exact ⟨hreload', (hrest hreload').1 hmore⟩
    · rintro ⟨hreload', hlasts⟩ before hbefore
      rcases List.prefix_cons_iff.1 hbefore with rfl | ⟨more, rfl, hmore⟩
      · exact hreload
      · rw [hnext more]
        exact (hrest hreload').2 hlasts more hmore

variable {document : Value} {deltas : List Delta} {tag : Tag}

/-- The document of a story with one character, and a ledger with one entry. -/
def paidDocument : Value :=
  .mapping [("characters", .list [.mapping [("id", .text "a")]]),
    ("assets", .mapping [("cash_ledger", .list [
      .mapping [("holder", .text "a"), ("denarii", .int 5)]])])]

/-- A delta that gives a character another name. -/
def naming (name : Value) : Delta := ⟨.set, "characters.a.name", name, none, none, none, none⟩

/-- A name that is a text, a balance that is refused, and one that is not. -/
def lastingBatch : List Delta :=
  [naming (.text "b"), settingDelta "denarii" (-1), settingDelta "denarii" 7]

end Delta

end StoryWorld
