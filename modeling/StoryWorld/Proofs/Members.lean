import StoryWorld.Proofs.Named
import StoryWorld.Proofs.Upheld

/-!
The lists of entities at the roots of a story keep their members.

No path ends at a root: the first look-up into a list of entities selects one of its items, and all
else that a delta does happens at that item or inside it. An item that is replaced as a whole is
replaced by an entity of its own kind, and a change inside an entity leaves its kind as it is. So
the deltas and the ends of episodes of a run neither add nor remove a character, a tie, a secret, a
thread or a faction, nor make anything else of one.
-/

namespace StoryWorld

/-! ### The kind of an entity -/

namespace Value

/-- The kind of an entity. -/
def kind? : Value → Option Kind
  | entity kind _ => some kind
  | _ => none

variable {v w old new : Value} {s : Step} {steps rest : List Step} {kind : Kind}

theorem isEntity_iff : v.isEntity kind = true ↔ v.kind? = some kind := by
  cases v <;> simp [isEntity, kind?]

theorem kind?_setField (v : Value) (name : String) (w : Value) :
    (v.setField name w).kind? = v.kind? := by
  cases v <;> rfl

theorem kind?_put (v : Value) (s : Step) (w : Value) : (v.put s w).kind? = v.kind? := by
  unfold put
  split
  · rfl
  · unfold putComputed
    split <;> rfl
  · unfold putBuiltin
    split <;> rfl
  all_goals rfl

theorem kind?_putInside (v : Value) (s : Step) (w : Value) : (v.putInside s w).kind? = v.kind? := by
  unfold putInside
  split
  · split
    · rfl
    · exact kind?_put _ _ _
  · exact kind?_put _ _ _

/-- A change inside an entity leaves its kind as it is. -/
theorem kind?_replace_cons (v : Value) (s : Step) (rest : List Step) (w : Value) :
    (v.replace (s :: rest) w).kind? = v.kind? := by
  unfold replace
  split
  · split
    · exact kind?_put _ _ _
    · exact kind?_putInside _ _ _
  · rfl

theorem kind?_replace (h : v.follow steps = .ok old) (hw : w.kind? = old.kind?) :
    (v.replace steps w).kind? = v.kind? := by
  cases steps with
  | nil =>
    obtain rfl : v = old := by simpa [follow] using h
    exact hw
  | cons s rest => exact kind?_replace_cons v s rest w

end Value

theorem Assign.kind?_settle (kind : Kind) (slots : List (Slot × Value)) (slot : Slot)
    (value : Value) : (settle kind slots slot value).1.kind? = some kind := by
  unfold settle
  split <;> rfl

theorem Assign.kind?_assign (w : Value) (s : Step) (value : Value) :
    (assign w s value).1.kind? = w.kind? := by
  unfold assign
  split
  · rename_i kind slots
    have heffect := toEntity_effect kind slots s value
    generalize toEntity kind slots s value = r at heffect ⊢
    cases heffect with
    | settled => exact kind?_settle _ _ _ _
    | settledField => exact kind?_settle _ _ _ _
    | _ => rfl
  · exact Value.kind?_put _ _ _

namespace Schema

/-- What is read as an entity of a kind is one. -/
theorem kind?_of_validate {kind : Kind} {fields : Fields} {v w : Value}
    (h : validate (.record kind fields) v = .accepted w) : w.kind? = some kind := by
  obtain ⟨es, slots, extra, -, -, -, hwhole⟩ := record_accepted h
  rw [eq_of_checkWhole hwhole]
  rfl

end Schema

theorem Delta.kind?_fit {kind : Kind} {delta : Delta} {v : Value} (h : fit kind delta = .ok v) :
    v.kind? = some kind := by
  unfold fit at h
  split at h
  · cases h
  · have hread := Verdict.outcome_ok.1 h
    cases kind <;> exact Schema.kind?_of_validate hread

/-! ### One item of a list at a root -/

namespace Locate

variable {path : String} {v : Value} {l : Lookup} {ls : List Lookup} {s : Step} {steps : List Step}

/-- The first of several look-ups makes the first step. -/
theorem Leads.head (h : Leads path v (l :: ls) steps) :
    ∃ s rest, find path v l = .ok s ∧ steps = s :: rest := by
  cases h with
  | last h => exact ⟨_, _, h, rfl⟩
  | next h hw hrest => exact ⟨_, _, h, rfl⟩

/-- What is looked up in a list is an item of it. -/
theorem find_list {xs : List Value} (h : find path (.list xs) l = .ok s) :
    ∃ i x, s = .item i ∧ xs[i]? = some x := by
  have hchild : ∀ name, child path (.list xs) name = .ok s →
      ∃ i x, s = .item i ∧ xs[i]? = some x := by
    intro name h
    simp only [child] at h
    split at h
    · rename_i i hi
      obtain ⟨hlt, -⟩ := List.findIdx?_eq_some_iff_getElem.1 hi
      exact ⟨i, _, (Except.ok.inj h).symm, List.getElem?_eq_getElem hlt⟩
    · cases h
  cases l with
  | name n => exact hchild n h
  | inside name accessor =>
    cases accessor with
    | key k => exact hchild k h
    | position i =>
      simp only [find, access] at h
      split at h
      · rename_i hi
        exact ⟨i, _, (Except.ok.inj h).symm, List.getElem?_eq_getElem hi⟩
      · cases h

end Locate

/-- An item that is put in its own place changes nothing. -/
theorem Story.setRoot_item {story : Story} {r : Root} {xs : List Value} {i : Nat} {x : Value}
    (hroot : story.root r = .list xs) (hx : xs[i]? = some x) :
    story.setRoot r (.list (xs.set i x)) = story := by
  have hput : Value.list (xs.set i x) = .list xs :=
    Value.put_read (s := .item i) (Value.read_item.2 hx)
  rw [hput, ← hroot, setRoot_root]

namespace Place

variable {story : Story} {place : Place} {xs : List Value} {i : Nat} {rest : List Step}
  {x v : Value}

/-- The steps of a path into a list start at an item of it. -/
theorem steps_of_list {path : String} (hroot : story.root place.root = .list xs)
    (hplace : resolve story path = .ok place) :
    ∃ i rest x, place.steps = .item i :: rest ∧ xs[i]? = some x := by
  obtain ⟨parts, segments, -, -, hlocate⟩ := resolve_ok.1 hplace
  rw [hroot] at hlocate
  obtain ⟨-, hleads⟩ := Locate.locate_ok.1 hlocate
  cases hls : segments.flatMap Locate.lookups with
  | nil =>
    rw [hls] at hleads
    exact absurd hleads Locate.not_leads_nil
  | cons l ls =>
    rw [hls] at hleads
    obtain ⟨s, rest, hfind, hsteps⟩ := hleads.head
    obtain ⟨i, x, rfl, hx⟩ := Locate.find_list hfind
    exact ⟨i, rest, x, hsteps, hx⟩

theorem read_of_steps (hroot : story.root place.root = .list xs)
    (hsteps : place.steps = .item i :: rest) (hx : xs[i]? = some x) :
    place.read story = x.follow rest := by
  rw [read_eq, hroot, hsteps, Value.follow, Value.read_item.2 hx]
  rfl

/-- What is put at a place in a list changes the item that the place is in. -/
theorem put_item (hroot : story.root place.root = .list xs)
    (hsteps : place.steps = .item i :: rest) (hx : xs[i]? = some x) (v : Value) :
    place.put story v = story.setRoot place.root (.list (xs.set i (x.replace rest v))) := by
  have hput : place.put story v =
      story.setRoot place.root ((story.root place.root).replace place.steps v) := rfl
  rw [hput, hroot, hsteps, Value.replace_cons rfl (Value.read_item.2 hx)]
  rfl

/-- What is written at a place in a list changes the item that the place is in, and leaves its kind
as it is unless the item is what is written. -/
theorem write_item (hroot : story.root place.root = .list xs)
    (hsteps : place.steps = .item i :: rest) (hx : xs[i]? = some x)
    (hv : rest = [] → v.kind? = x.kind?) (path : String) :
    ∃ y, y.kind? = x.kind? ∧
      (place.write story path v).1 = story.setRoot place.root (.list (xs.set i y)) := by
  unfold write
  split
  · exact ⟨x, rfl, (Story.setRoot_item hroot hx).symm⟩
  · rename_i w hw
    rw [container, hroot] at hw
    rw [steps] at hsteps
    cases hbefore : place.before with
    | nil =>
      rw [hbefore] at hw hsteps
      obtain ⟨hlast, hrest⟩ := List.cons_eq_cons.1 hsteps
      obtain rfl : .list xs = w := by simpa [Value.follow] using hw
      refine ⟨v, hv hrest.symm, ?_⟩
      simp only [setContainer, hbefore, hlast]
      rfl
    | cons s before =>
      rw [hbefore] at hw hsteps
      obtain ⟨rfl, -⟩ := List.cons_eq_cons.1 hsteps
      obtain ⟨z, hz, hw⟩ := Value.follow_cons.1 hw
      obtain rfl : z = x := Option.some.inj ((Value.read_item.1 hz).symm.trans hx)
      refine ⟨z.replace before (Assign.assign w place.last v).1,
        Value.kind?_replace hw (Assign.kind?_assign w place.last v), ?_⟩
      simp only [setContainer, hroot, hbefore, Value.replace_cons rfl hz]
      rfl

end Place

namespace Delta

variable {story : Story} {place : Place} {delta : Delta} {xs : List Value} {i : Nat}
  {rest : List Step} {x v : Value}

/-- What takes the place of an entity in a list is of its kind. -/
theorem kind?_replacement {kind : Kind} (hlast : place.last = .item i)
    (hread : place.read story = .ok x) (hx : x.kind? = some kind)
    (h : replacement story place delta = .ok v) : v.kind? = some kind := by
  rw [replacement, hlast] at h
  simp only [hread, Outcome.ok_bind] at h
  cases x <;> simp only [Value.kind?, Option.some.injEq, reduceCtorEq] at hx
  subst hx
  exact kind?_fit h

/-- A delta at a place in a list of entities changes the entity that the place is in, and leaves its
kind as it is. -/
theorem amend_item {kind : Kind} (hroot : story.root place.root = .list xs)
    (hsteps : place.steps = .item i :: rest) (hx : xs[i]? = some x) (hkind : x.kind? = some kind)
    (delta : Delta) : ∃ y, y.kind? = some kind ∧
      (amend story place delta).1 = story.setRoot place.root (.list (xs.set i y)) := by
  have hread := Place.read_of_steps hroot hsteps hx
  -- At the item itself there is an entity, and nothing that has a list or a number at its place.
  have hself : rest = [] → place.last = .item i ∧ place.read story = .ok x := by
    rintro rfl
    rw [hread]
    rw [Place.steps] at hsteps
    exact ⟨by simpa using congrArg List.getLast? hsteps, rfl⟩
  have hwrite : ∀ v, (rest = [] → v.kind? = some kind) → ∃ y, y.kind? = some kind ∧
      (place.write story delta.path v).1 = story.setRoot place.root (.list (xs.set i y)) := by
    intro v hv
    obtain ⟨y, hy, heq⟩ := Place.write_item hroot hsteps hx
      (fun hrest => (hv hrest).trans hkind.symm) delta.path
    exact ⟨y, hy.trans hkind, heq⟩
  have hput : ∀ old ys, place.read story = .ok (.list old) → ∃ y, y.kind? = some kind ∧
      place.put story (.list ys) = story.setRoot place.root (.list (xs.set i y)) := by
    intro old ys hold
    refine ⟨x.replace rest (.list ys), ?_, Place.put_item hroot hsteps hx _⟩
    rw [hread] at hold
    exact (Value.kind?_replace (w := .list ys) hold rfl).trans hkind
  refine amend_keeps (P := fun s => ∃ y, y.kind? = some kind ∧
      s = story.setRoot place.root (.list (xs.set i y)))
    ⟨x, hkind, (Story.setRoot_item hroot hx).symm⟩ (fun v hv => ?_) (fun f v hv => ?_)
    (fun ys hys => ?_) fun ys hys => ?_
  · refine hwrite v fun hrest => ?_
    obtain ⟨hlast, hitem⟩ := hself hrest
    exact kind?_replacement hlast hitem hkind hv
  · refine hwrite v fun hrest => ?_
    obtain ⟨⟨a, b⟩, hab, -⟩ := Outcome.bind_ok.1 hv
    obtain ⟨w, hw, hab⟩ := Outcome.bind_ok.1 hab
    obtain rfl : x = w := Except.ok.inj ((hself hrest).2.symm.trans hw)
    cases x with
    | entity kind slots => simp [Value.number?, refuse] at hab
    | _ => cases hkind
  · obtain ⟨old, hold, -⟩ := Outcome.bind_ok.1 hys
    exact hput old ys (requireList_ok hold)
  · obtain ⟨old, hold, -⟩ := removed_ok hys
    exact hput old ys hold

end Delta

/-! ### Whole runs -/

/-- The kind of the entities in the list at a root, if there is one. -/
def Root.memberKind? : Root → Option Kind
  | .characters => some .character
  | .relationships => some .relationship
  | .secrets => some .secret
  | .threads => some .thread
  | .factions => some .faction
  | _ => none

namespace Story

variable {story : Story} {r : Root} {kind : Kind} {n : Nat}

/-- A root with a list of so many entities of a kind. -/
def HasMembers (story : Story) (r : Root) (kind : Kind) (n : Nat) : Prop :=
  ∃ xs, story.root r = .list xs ∧ xs.length = n ∧ ∀ x ∈ xs, x.kind? = some kind

theorem HasMembers.of_root {after : Story} (h : story.HasMembers r kind n)
    (heq : after.root r = story.root r) : after.HasMembers r kind n := by
  unfold HasMembers
  rw [heq]
  exact h

/-- An item that takes the place of another has to be of the same kind. -/
theorem hasMembers_set {xs : List Value} {i : Nat} {y : Value} (hlen : xs.length = n)
    (hxs : ∀ x ∈ xs, x.kind? = some kind) (hy : y.kind? = some kind) :
    (story.setRoot r (.list (xs.set i y))).HasMembers r kind n := by
  refine ⟨xs.set i y, Story.root_setRoot_self _ _ _, by rw [List.length_set, hlen], ?_⟩
  intro x hx
  rcases List.mem_or_eq_of_mem_set hx with hx | rfl
  · exact hxs x hx
  · exact hy

/-- A document gives each list of entities as one. -/
theorem hasMembers_of_read {document : Value} (h : read document = .ok story)
    (hr : r.memberKind? = some kind) : ∃ n, story.HasMembers r kind n := by
  obtain ⟨w, hw, rfl⟩ := Outcome.map_ok.1 h
  have hv := Verdict.outcome_ok.1 hw
  have hmembers : ∀ (name : String) (item : Kind),
      (∀ x y, Schema.validate item.shape x = .accepted y → y.kind? = some item) →
      Fields.worldState.find? (fun f => f.1.name == name) =
        some (Shape.many name item.shape) →
      ∃ n xs, w.field name = .list xs ∧ xs.length = n ∧ ∀ x ∈ xs, x.kind? = some item := by
    intro name item hitem hf
    obtain ⟨xs, hxs, hread⟩ := Schema.entities_of_validate hv name item hf
    refine ⟨xs.length, xs, hxs, rfl, fun x hx => ?_⟩
    obtain ⟨u, hu⟩ := hread x hx
    exact hitem u x hu
  cases r <;> cases hr
  · exact hmembers "characters" .character (fun _ _ => Schema.kind?_of_validate) rfl
  · exact hmembers "relationships" .relationship (fun _ _ => Schema.kind?_of_validate) rfl
  · exact hmembers "secrets" .secret (fun _ _ => Schema.kind?_of_validate) rfl
  · exact hmembers "threads" .thread (fun _ _ => Schema.kind?_of_validate) rfl
  · exact hmembers "factions" .faction (fun _ _ => Schema.kind?_of_validate) rfl

end Story

namespace Delta

variable {story : Story} {delta : Delta} {r : Root} {kind : Kind} {n : Nat}

/-- A path delta changes the root of its place only. -/
theorem root_amend {place : Place} (hr : r ≠ place.root) :
    (amend story place delta).1.root r = story.root r := by
  have hsame : story.root place.root = story.root place.root := rfl
  obtain ⟨v, o, hamend, -⟩ := amend_congr hsame delta
  rw [hamend]
  exact Story.root_setRoot_of_ne story hr v

/-- A delta keeps the members of a list of entities, whatever comes of it. -/
theorem hasMembers_perform (hr : r ≠ .assets) (h : story.HasMembers r kind n) :
    (perform story delta).1.HasMembers r kind n := by
  unfold perform
  split
  · refine @transfer_keeps story delta (fun s => s.HasMembers r kind n) (fun s entries hs => ?_) h
    exact hs.of_root (Story.root_setRoot_of_ne s hr _)
  · refine amendPath_keeps (P := fun s => s.HasMembers r kind n) h fun place hplace => ?_
    by_cases hroot : place.root = r
    · subst hroot
      obtain ⟨xs, hxs, hlen, hkinds⟩ := h
      obtain ⟨i, rest, x, hsteps, hx⟩ := Place.steps_of_list hxs hplace
      obtain ⟨y, hy, hstory⟩ :=
        amend_item hxs hsteps hx (hkinds x (List.mem_of_getElem? hx)) delta
      rw [hstory]
      exact Story.hasMembers_set hlen hkinds hy
    · exact h.of_root (root_amend (Ne.symm hroot))

end Delta

namespace Decay

/-- A secret that fades stays a secret. -/
theorem kind?_ofSecret (episode : Option Int) (secret : Value) :
    (ofSecret episode secret).1.kind? = secret.kind? := by
  have hnoted : ∀ decay, (noteEpisode secret decay episode).kind? = secret.kind? := by
    intro decay
    cases episode with
    | none => rfl
    | some n => exact Value.kind?_setField _ _ _
  have hfaded : ∀ s decay : Value, (fadeSecret s decay).1.kind? = s.kind? := by
    intro s decay
    unfold fadeSecret
    simp only
    split
    · rfl
    · exact Value.kind?_setField _ _ _
  unfold ofSecret
  split
  · rfl
  · rfl
  · rename_i decay _
    split
    · rfl
    · rfl
    · have hboth := (hfaded (noteEpisode secret decay episode) decay).trans (hnoted decay)
      simp only
      split
      · exact hboth
      · exact hboth
      · rw [Value.kind?_setField]
        exact hboth
      · exact hboth

theorem map_kind?_ofSecrets (episode : Option Int) : ∀ secrets : List Value,
    (ofSecrets episode secrets).1.map Value.kind? = secrets.map Value.kind?
  | [] => rfl
  | secret :: rest => by
    have hone := kind?_ofSecret episode secret
    unfold ofSecrets
    split
    · rename_i after fault heq
      rw [heq] at hone
      rw [List.map_cons, List.map_cons, hone]
    · rename_i after effect heq
      rw [heq] at hone
      simp only [List.map_cons, hone, map_kind?_ofSecrets episode rest]

/-- The end of an episode keeps the members of every list of entities. -/
theorem hasMembers_apply {story : Story} {r : Root} {kind : Kind} {n : Nat} (episode : Option Int)
    (h : story.HasMembers r kind n) : (apply story episode).story.HasMembers r kind n := by
  rw [apply_story]
  by_cases hr : r = .secrets
  · subst hr
    obtain ⟨xs, hxs, hlen, hkinds⟩ := h
    have hsecrets : story.secrets.items = xs := by
      rw [show story.secrets = .list xs from hxs]
      rfl
    have hmap := map_kind?_ofSecrets episode story.secrets.items
    rw [hsecrets] at hmap ⊢
    refine ⟨_, Story.root_setRoot_self _ _ _, ?_, fun y hy => ?_⟩
    · simpa [hlen] using congrArg List.length hmap
    · have hy' := List.mem_map_of_mem (f := Value.kind?) hy
      rw [hmap] at hy'
      obtain ⟨x, hx, heq⟩ := List.mem_map.1 hy'
      rw [← heq]
      exact hkinds x hx
  · exact h.of_root (Story.root_setRoot_of_ne story hr _)

end Decay

/-- Over every run from a document, whatever its deltas and what comes of them, the lists of
characters, ties, secrets, threads and factions keep their lengths, and all that they hold are
entities of their own kinds. -/
theorem members_after {document : Value} {story : Story}
    (hread : Story.read document = .ok story) (calls : List Call) :
    ∀ r kind, Root.memberKind? r = some kind → ∃ xs ys, story.root r = .list xs ∧
      (story.after calls).root r = .list ys ∧ ys.length = xs.length ∧
        ∀ y ∈ ys, y.isEntity kind = true := by
  intro r kind hr
  have hassets : r ≠ .assets := by
    rintro rfl
    cases hr
  obtain ⟨n, hmembers⟩ := Story.hasMembers_of_read hread hr
  have hafter : (story.after calls).HasMembers r kind n :=
    @Story.after_keeps (fun s => s.HasMembers r kind n) (fun _ => True)
      (fun _ _ _ h => Delta.hasMembers_perform hassets h)
      (fun _ episode h => Decay.hasMembers_apply episode h) story calls
      (fun _ _ _ _ => trivial) hmembers
  obtain ⟨xs, hxs, hlen, -⟩ := hmembers
  obtain ⟨ys, hys, hlen', hkinds⟩ := hafter
  exact ⟨xs, ys, hxs, hys, by rw [hlen', hlen], fun y hy => Value.isEntity_iff.2 (hkinds y hy)⟩

/-- The document of a story with two characters and a secret that fades. -/
def companyDocument : Value :=
  .mapping [("characters", .list [.mapping [("id", .text "a")], .mapping [("id", .text "b")]]),
    ("secrets", .list [.mapping [("id", .text "s"),
      ("decay", .mapping [("half_life_episodes", .int 1)])]])]

/-- A character is replaced as a whole by a document. To remove something from the other and to make
a number of it are refused, an operator gives it another id, and the episode ends. -/
def companyRun : List Call :=
  [.apply ⟨.set, "characters.a", .mapping [("id", .text "c")], none, none, none, none⟩ ⟨none, none⟩,
    .applyAll [⟨.remove, "characters.b", .null, none, none, none, none⟩,
      ⟨.set, "characters.b", .int 1, none, none, none, none⟩] ⟨none, none⟩,
    .operator ⟨"o", [], [], [⟨.set, "actor.id", .text "d", none, none, none, none⟩], .null⟩
      ⟨some "b", none, none⟩ ⟨none, none⟩,
    .decay (some 1)]

/-- Both characters go by other ids after the run, and are characters still. -/
theorem members_after_four : ∃ story, Story.read companyDocument = .ok story ∧
    (story.after companyRun).characters.items.map Value.id? = [some "c", some "d"] ∧
    ∃ xs ys, story.characters = .list xs ∧ (story.after companyRun).characters = .list ys ∧
      ys.length = xs.length ∧ ∀ y ∈ ys, y.isEntity .character = true := by
  obtain ⟨story, hread, hids⟩ := Story.exists_read companyDocument (fun story =>
    (story.after companyRun).characters.items.map Value.id? = [some "c", some "d"])
    (by decide +kernel)
  exact ⟨story, hread, hids, members_after hread companyRun .characters .character rfl⟩

end StoryWorld
