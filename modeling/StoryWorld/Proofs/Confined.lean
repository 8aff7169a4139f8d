import StoryWorld.Proofs.Members
import StoryWorld.Proofs.Roles
import StoryWorld.Proofs.Setting

/-!
How far the effects of an operator on its actor reach.

The path of such an effect is written out with the id of the actor and cut again, so what it reaches
is the first character that goes by the name in the first part of the id. Where that name is no
other character's, every effect that works changes the actor and nothing else, and by induction over
the batch so do all of them, even if the actor gets another id on the way. An id with a point or
with brackets in it can name another character, and so can an id that two characters share, once the
first of them has lost it.
-/

namespace StoryWorld

/-! ### What a path that is written out reaches -/

namespace Place

variable {story : Story} {place : Place} {xs : List Value} {id : String}

/-- The name that an id which is written into a path looks up first: the id, unless points or
brackets in it make more of it. -/
def firstName? (id : String) : Option String :=
  match Segment.parse ((Text.splitAt '.' id.toList).headD []) id with
  | .ok segment => some segment.name
  | .error _ => none

/-- An id without points and brackets looks up itself. -/
theorem firstName?_of_isName (h : Segment.IsName id) : firstName? id = some id := by
  have hpoint : '.' ∉ id.toList := fun hmem => (h.of_mem hmem).1 rfl
  rw [firstName?, Text.splitAt_of_not_mem hpoint]
  simp only [List.headD_cons, Segment.parse_of_isName h]

/-- The position of the item of a list that an id in a path reaches, whatever follows it there. -/
def reached? (xs : List Value) (id : String) : Option Nat :=
  (firstName? id).bind fun name => xs.findIdx? (Locate.hasId name)

theorem lt_of_reached {i : Nat} (h : reached? xs id = some i) : i < xs.length := by
  obtain ⟨name, -, hi⟩ := Option.bind_eq_some_iff.1 h
  exact (List.findIdx?_eq_some_iff_getElem.1 hi).1

/-- A path that is written out leads into the item that its id reaches. -/
theorem leads_reached {root : Root} {rest : List Char} (hroot : story.root root = .list xs)
    (h : resolve story (root.name ++ "." ++ id ++ "." ++ String.ofList rest) = .ok place) :
    place.root = root ∧ ∃ i steps, reached? xs id = some i ∧ place.steps = .item i :: steps := by
  obtain ⟨parts, segments, hsplit, hparse, hlocate⟩ := resolve_ok.1 h
  rw [split_spliced] at hsplit
  obtain ⟨hname, rfl⟩ := List.cons_eq_cons.1 hsplit
  have hsame : root = place.root := Root.name_injective (String.toList_injective hname)
  refine ⟨hsame.symm, ?_⟩
  subst hsame
  obtain ⟨part, more, hid⟩ :=
    List.exists_cons_of_ne_nil (Text.splitAt_ne_nil '.' id.toList)
  rw [hid, List.cons_append, Segment.parseAll] at hparse
  obtain ⟨segment, hsegment, hparse⟩ := Outcome.bind_ok.1 hparse
  obtain ⟨others, -, hparse⟩ := Outcome.bind_ok.1 hparse
  obtain rfl := Outcome.pure_ok.1 hparse
  obtain ⟨-, hleads⟩ := Locate.locate_ok.1 hlocate
  have hlookups : ∃ ls, (segment :: others).flatMap Locate.lookups =
      .name segment.name :: ls := by
    rw [List.flatMap_cons, Locate.lookups]
    split <;> exact ⟨_, rfl⟩
  obtain ⟨ls, hls⟩ := hlookups
  rw [hls, hroot] at hleads
  obtain ⟨s, steps, hfind, hsteps⟩ := hleads.head
  simp only [Locate.find, Locate.child] at hfind
  split at hfind
  · rename_i i hi
    obtain rfl := Except.ok.inj hfind
    refine ⟨i, steps, ?_, hsteps⟩
    rw [reached?, firstName?, hid]
    simp only [List.headD_cons, Segment.parse_congr id hsegment, Option.bind_some, hi]
  · cases hfind

end Place

/-! ### Effects on the actor -/

namespace Delta

/-- A path delta with a path from the actor. -/
def IsOnActor (delta : Delta) : Prop :=
  delta.op ≠ .transfer ∧ ∃ rest, delta.path = Role.actor.path rest

end Delta

namespace Story

/-- The position of the first character with an id. -/
def actorAt? (story : Story) (id : String) : Option Nat :=
  story.characters.items.findIdx? fun x => x.id? == some id

/-- Whether what an id in a path reaches among the characters is the one at a position, if
anything. -/
def Finds (story : Story) (id : String) (i : Nat) : Prop :=
  ∀ k ∈ Place.reached? story.characters.items id, k = i

instance (story : Story) (id : String) (i : Nat) : Decidable (story.Finds id i) :=
  inferInstanceAs (Decidable (∀ k ∈ Place.reached? story.characters.items id, k = i))

/-- Whether a story came of another by a change of the character at a position and nothing else. -/
def ChangedAt (story : Story) (i : Nat) (after : Story) : Prop :=
  ∃ y, y.isEntity .character = true ∧
    after = story.setRoot .characters (.list (story.characters.items.set i y))

/-- A story whose characters are entities with texts for their ids. -/
structure Peopled (story : Story) : Prop where
  list : story.root .characters = .list story.characters.items
  kinds : ∀ x ∈ story.characters.items, x.kind? = some .character
  ids : ∀ x ∈ story.characters.items, ∃ s, x.id? = some s

theorem peopled_of_read {document : Value} {story : Story} (h : read document = .ok story) :
    story.Peopled := by
  obtain ⟨n, xs, hxs, -, hkinds⟩ := hasMembers_of_read (r := .characters) h rfl
  obtain ⟨ys, hys, hids⟩ := (named_of_read h).characters
  have hitems : story.characters.items = xs := congrArg Value.items hxs
  obtain rfl : xs = ys := Value.list.inj (hxs.symm.trans hys)
  rw [← hitems] at hxs hkinds hids
  exact ⟨hxs, hkinds, hids⟩

/-- A character that was read notes what it is given. -/
theorem notes_of_read {document : Value} {story : Story} (h : read document = .ok story)
    {kind : Kind} {slots : List (Slot × Value)} (hx : .entity kind slots ∈ story.characters.items) :
    Assign.notes slots = true := by
  obtain ⟨w, hw, rfl⟩ := Outcome.map_ok.1 h
  obtain ⟨xs, hxs, hread⟩ :=
    Schema.entities_of_validate (Verdict.outcome_ok.1 hw) "characters" .character rfl
  have hitems : (ofEntity w).characters.items = xs := congrArg Value.items hxs
  obtain ⟨u, hu⟩ := hread _ (hitems ▸ hx)
  exact Schema.notes_of_validate hu

theorem Peopled.entity {story : Story} {k : Nat} {x : Value} (h : story.Peopled)
    (hx : story.characters.items[k]? = some x) : ∃ slots, x = .entity .character slots := by
  have hkind := h.kinds x (List.mem_of_getElem? hx)
  cases x with
  | entity kind slots => exact ⟨slots, by cases hkind; rfl⟩
  | _ => cases hkind

/-- Such a change leaves every other character. -/
theorem ChangedAt.getElem? {story after : Story} {i j : Nat} (h : story.ChangedAt i after)
    (hj : j ≠ i) : after.characters.items[j]? = story.characters.items[j]? := by
  obtain ⟨y, -, rfl⟩ := h
  exact List.getElem?_set_ne (Ne.symm hj)

theorem changedAt_self {story : Story} {i : Nat} {x : Value} (h : story.Peopled)
    (hx : story.characters.items[i]? = some x) : story.ChangedAt i story :=
  ⟨x, Value.isEntity_iff.2 (h.kinds x (List.mem_of_getElem? hx)),
    (setRoot_item h.list hx).symm⟩

end Story

namespace Operator

variable {document : Value} {story s : Story} {bindings : Bindings} {id : String} {i : Nat}
  {delta : Delta} {place : Place}

/-- The written path of an effect on the actor leads into what the id of the actor reaches. -/
theorem leads_actor {xs : List Value} (hlist : s.root .characters = .list xs)
    (hbound : bindings.actor = some id) (hd : delta.IsOnActor)
    (hplace : Place.resolve s (bindEffect bindings delta).path = .ok place) :
    place.root = .characters ∧ ∃ k steps, Place.reached? xs id = some k ∧
      place.steps = .item k :: steps := by
  obtain ⟨-, rest, hpath⟩ := hd
  have hwritten : (bindEffect bindings delta).path = bindings.expand (Role.actor.path rest) :=
    congrArg bindings.expand hpath
  rw [hwritten] at hplace
  cases hrole : Role.actor.id? bindings with
  | none =>
    rw [Role.expand_unbound hrole] at hplace
    exact absurd hplace (Role.resolve_path_ne_ok _ _ rest place)
  | some present =>
    obtain rfl : present = id := by
      rw [Role.id?, hbound, Text.present?] at hrole
      split at hrole
      · cases hrole
      · exact (Option.some.inj hrole).symm
    rw [Role.expand_bound hrole] at hplace
    exact Place.leads_reached hlist hplace

/-- An effect on the actor changes the actor only, wherever it is made in a batch of them, as long
as the id of the actor reaches nothing else. -/
theorem changedAt_perform (hbound : bindings.actor = some id)
    (hd : delta.IsOnActor) (hfinds : s.Finds id i) (hs : story.ChangedAt i s) :
    story.ChangedAt i (Delta.perform s (bindEffect bindings delta)).1 := by
  obtain ⟨y, hy, rfl⟩ := hs
  have hlist : (story.setRoot .characters (.list (story.characters.items.set i y))).root
      .characters = .list (story.characters.items.set i y) := Story.root_setRoot_self _ _ _
  rw [Delta.perform_path (show (bindEffect bindings delta).op ≠ .transfer from hd.1)]
  refine Delta.amendPath_keeps (P := story.ChangedAt i) ⟨y, hy, rfl⟩ fun place hplace => ?_
  obtain ⟨hroot, k, steps, hk, hsteps⟩ := leads_actor hlist hbound hd hplace
  obtain rfl := hfinds k hk
  have hlt : k < story.characters.items.length := by
    simpa only [List.length_set] using Place.lt_of_reached hk
  have hplaced : (story.setRoot .characters (.list (story.characters.items.set k y))).root
      place.root = .list (story.characters.items.set k y) := by
    rw [hroot]
    exact hlist
  obtain ⟨z, hz, hafter⟩ := Delta.amend_item hplaced hsteps (List.getElem?_set_self hlt)
    (Value.isEntity_iff.1 hy) (bindEffect bindings delta)
  refine ⟨z, Value.isEntity_iff.2 hz, ?_⟩
  rw [hafter, hroot, Story.setRoot_setRoot, List.set_set]

/-- The effects of an operator on its actor change the actor only, whatever comes of them, if in
each story that they meet the id of the actor reaches the actor or nothing. -/
theorem changedAt_apply (h : story.Peopled) (hi : i < story.characters.items.length)
    (hbound : bindings.actor = some id) {op : Operator} (hop : ∀ d ∈ op.effects, d.IsOnActor)
    (hfinds : Delta.InTurn (fun s _ => s.Finds id i) story (op.effects.map (bindEffect bindings)))
    (tag : Tag) : story.ChangedAt i (apply story op bindings tag).story := by
  have hself := Story.changedAt_self h (List.getElem?_eq_getElem hi)
  rcases apply_story story op bindings tag with heq | heq
  · rw [heq]
    exact hself
  · rw [heq]
    refine Delta.applyEach_keeps_inTurn ?_ hself (fun _ => List.mem_map.1) hfinds
    rintro s _ hs ⟨effect, heffect, rfl⟩ hfound
    exact changedAt_perform hbound (hop effect heffect) hfound hs

/-- Where no other character goes by what its id looks up first, an effect on the actor reaches
nothing else, whatever became of the actor before. -/
theorem finds_of_alone (h : story.Peopled)
    (halone : ∀ x ∈ story.characters.items.eraseIdx i, x.id? ≠ Place.firstName? id)
    (hs : story.ChangedAt i s) : s.Finds id i := by
  obtain ⟨y, -, rfl⟩ := hs
  intro k hk
  have hk' : Place.reached? (story.characters.items.set i y) id = some k := hk
  obtain ⟨name, hname, hfound⟩ := Option.bind_eq_some_iff.1 hk'
  obtain ⟨hset, hid, -⟩ := List.findIdx?_eq_some_iff_getElem.1 hfound
  have hlt : k < story.characters.items.length := by simpa using hset
  by_contra hne
  have hx : story.characters.items[k]? = some story.characters.items[k] :=
    List.getElem?_eq_getElem hlt
  obtain ⟨t, ht⟩ := h.ids _ (List.mem_of_getElem? hx)
  rw [List.getElem_set_ne (Ne.symm hne), Value.hasId_eq ht, beq_iff_eq] at hid
  refine halone _ (List.mem_eraseIdx_iff_getElem?.2 ⟨k, hne, hx⟩) (hid.trans hname.symm)

/-- So the effects on the actor meet only stories where they reach nothing else. -/
theorem finds_inTurn_of_alone (h : story.Peopled) (hbound : bindings.actor = some id)
    (halone : ∀ x ∈ story.characters.items.eraseIdx i, x.id? ≠ Place.firstName? id) :
    ∀ {s : Story} {effects : List Delta}, (∀ d ∈ effects, d.IsOnActor) → story.ChangedAt i s →
      Delta.InTurn (fun s _ => s.Finds id i) s (effects.map (bindEffect bindings))
  | s, [], _, _ => trivial
  | s, effect :: effects, hop, hs => by
    rw [List.forall_mem_cons] at hop
    have hfinds := finds_of_alone h halone hs
    exact ⟨hfinds, finds_inTurn_of_alone h hbound halone hop.2
      (changedAt_perform hbound hop.1 hfinds hs)⟩

theorem lt_of_actorAt? (h : story.actorAt? id = some i) : i < story.characters.items.length :=
  (List.findIdx?_eq_some_iff_getElem.1 h).1

/-! ### Two characters with one id -/

/-- The effect that takes the id of the actor away. -/
def unnaming : Delta := ⟨.set, Role.actor.path "id".toList, .null, none, none, none, none⟩

theorem isOnActor_unnaming : unnaming.IsOnActor := ⟨by decide, _, rfl⟩

/-- A character without its id. -/
def unnamed (slots : List (Slot × Value)) : Value :=
  .entity .character (Table.put (.field "id") .null slots)

theorem not_hasId_unnamed (slots : List (Slot × Value)) (id : String) :
    Locate.hasId id (unnamed slots) = false := by
  simp [unnamed, Locate.hasId, Locate.idOf, Value.equal]

/-- The effect works on the first character with the id. -/
theorem perform_unnaming {xs : List Value} {slots : List (Slot × Value)}
    (hnotes : Assign.notes slots = true) (hlist : s.root .characters = .list xs)
    (hbound : bindings.actor = some id) (hname : Segment.IsName id)
    (hi : xs.findIdx? (Locate.hasId id) = some i)
    (hx : xs[i]? = some (.entity .character slots)) :
    Delta.perform s (bindEffect bindings unnaming) =
      (s.setRoot .characters (.list (xs.set i (unnamed slots))), .ok ()) := by
  have hrole : Role.actor.id? bindings = some id := by
    have hempty : id.isEmpty = false := by
      simpa [String.isEmpty_iff] using hname.ne_empty
    rw [Role.id?, hbound, Text.present?, hempty]
    rfl
  have hpath : (bindEffect bindings unnaming).path =
      Root.characters.name ++ "." ++ id ++ "." ++ String.ofList "id".toList :=
    Role.expand_bound hrole "id".toList
  have hsteps : ∀ path, Locate.stepsFrom path (.entity .character slots) [⟨"id", none⟩] =
      .ok [.slot (.field "id")] := fun _ => rfl
  have hparse : Segment.parseAll "" (Text.splitAt '.' (Text.trimRight "id".toList)) =
      .ok [⟨"id", none⟩] := rfl
  have hplace : Place.resolve s (bindEffect bindings unnaming).path =
      .ok ⟨.characters, [.item i], .slot (.field "id")⟩ := by
    rw [hpath, Place.resolve_written hlist hname hi hx hparse, hsteps]
    rfl
  have hitem : (Value.list xs).read (.item i) = .ok (.entity .character slots) :=
    Value.read_item.2 hx
  have hcontainer : (⟨.characters, [.item i], .slot (.field "id")⟩ : Place).container s =
      .ok (.entity .character slots) := by
    rw [Place.container, hlist]
    exact Value.follow_cons.2 ⟨_, hitem, rfl⟩
  have hset : (⟨.characters, [.item i], .slot (.field "id")⟩ : Place).setContainer s
      (unnamed slots) = s.setRoot .characters (.list (xs.set i (unnamed slots))) := by
    simp only [Place.setContainer, hlist, Value.replace_cons rfl hitem]
    rfl
  rw [Delta.perform_path (show DeltaOp.set ≠ .transfer by decide),
    Delta.amendPath_of_ne hplace (show Root.characters ≠ .assets by decide), ← hset]
  simp only [Delta.amend, bindEffect, Delta.expand, unnaming, Delta.replacement,
    Delta.writeOutcome, Place.write, hcontainer, Assign.assign, Assign.toEntity, Assign.openField,
    hnotes]
  rfl

/-- An operator that takes the id of its actor away twice. -/
def unnamingTwice : Operator := ⟨"", [], [], [unnaming, unnaming], .null⟩

theorem isOnActor_unnamingTwice : ∀ d ∈ unnamingTwice.effects, d.IsOnActor :=
  List.forall_mem_cons.2 ⟨isOnActor_unnaming, List.forall_mem_singleton.2 isOnActor_unnaming⟩

/-- An operator without conditions leaves a story as its effects do. -/
theorem apply_story_of_unconditional {op : Operator} (hnamed : story.Named)
    (hop : op.prerequisites = []) (tag : Tag) : (apply story op bindings tag).story =
      (Delta.applyEach story (effectTag op tag) (op.effects.map (bindEffect bindings))).story := by
  rw [← Delta.applyAll_story, apply, Context.ofStory_eq hnamed, hop]
  simp only [Prerequisite.evaluateAll, Prerequisite.allPassed, List.all_nil, if_true, applyEffects]
  split <;> rfl

theorem applyEach_story_of_ok {after : Story} (tag : Tag)
    (h : Delta.perform story delta = (after, .ok ())) (rest : List Delta) :
    (Delta.applyEach story tag (delta :: rest)).story = (Delta.applyEach after tag rest).story := by
  simp only [Delta.applyEach, Delta.apply_of_ok tag h]

/-- When a character has lost its id, a path with the id finds another one that has it. -/
theorem exists_namesake {xs : List Value} {x : Value} {j : Nat} (hj : j ≠ i) (hx : xs[j]? = some x)
    (hid : x.id? = some id) (slots : List (Slot × Value)) :
    ∃ k, k ≠ i ∧ (xs.set i (unnamed slots)).findIdx? (Locate.hasId id) = some k ∧
      ∃ z, xs[k]? = some z ∧ Locate.hasId id z = true := by
  obtain ⟨k, hk⟩ : ∃ k, (xs.set i (unnamed slots)).findIdx? (Locate.hasId id) = some k := by
    rw [← Option.isSome_iff_exists, List.findIdx?_isSome, List.any_eq_true]
    refine ⟨x, List.mem_of_getElem? ((List.getElem?_set_ne (Ne.symm hj)).trans hx), ?_⟩
    rw [Value.hasId_eq hid, hid, beq_self_eq_true]
  obtain ⟨hlt, hidk, -⟩ := List.findIdx?_eq_some_iff_getElem.1 hk
  have hki : k ≠ i := by
    rintro rfl
    rw [List.getElem_set_self, not_hasId_unnamed] at hidk
    cases hidk
  have hsame : (xs.set i (unnamed slots))[k]? = xs[k]? := List.getElem?_set_ne (Ne.symm hki)
  exact ⟨k, hki, hk, _, hsame.symm.trans (List.getElem?_eq_getElem hlt), hidk⟩

/-- If another character has the id of the actor, the operator changes that one too. -/
theorem namesake_reached (hread : Story.read document = .ok story)
    (hactor : story.actorAt? id = some i) (hbound : bindings.actor = some id)
    (hname : Segment.IsName id) {j : Nat} {x : Value} (hj : j ≠ i)
    (hx : story.characters.items[j]? = some x) (hid : x.id? = some id) (tag : Tag) :
    ¬ story.ChangedAt i (apply story unnamingTwice bindings tag).story := by
  have h := Story.peopled_of_read hread
  have hfirst : story.characters.items.findIdx? (Locate.hasId id) = some i := by
    rw [Value.findIdx?_hasId h.ids]
    exact hactor
  have hlt := lt_of_actorAt? hactor
  obtain ⟨slots, hi⟩ := h.entity (List.getElem?_eq_getElem hlt)
  have hfirstNotes := Story.notes_of_read hread (hi ▸ List.getElem_mem hlt)
  have hone :=
    perform_unnaming hfirstNotes h.list hbound hname hfirst (hi ▸ List.getElem?_eq_getElem hlt)
  obtain ⟨k, hki, hk, z, hz, hidz⟩ := exists_namesake hj hx hid slots
  obtain ⟨other, rfl⟩ := h.entity hz
  have hget : (story.characters.items.set i (unnamed slots))[k]? =
      some (.entity .character other) := (List.getElem?_set_ne (Ne.symm hki)).trans hz
  have htwo := perform_unnaming (Story.notes_of_read hread (List.mem_of_getElem? hz))
    (Story.root_setRoot_self story .characters _) hbound hname hk hget
  rw [Story.setRoot_setRoot] at htwo
  intro hchanged
  have hsame := hchanged.getElem? hki
  rw [apply_story_of_unconditional (Story.named_of_read hread) rfl, unnamingTwice, List.map_cons,
    List.map_cons, List.map_nil, applyEach_story_of_ok _ hone, applyEach_story_of_ok _ htwo,
    Delta.applyEach, hz] at hsame
  have hat : ((story.characters.items.set i (unnamed slots)).set k (unnamed other))[k]? =
      some (.entity .character other) := hsame
  obtain ⟨hltk, -⟩ := List.getElem?_eq_some_iff.1 hget
  rw [List.getElem?_set_self hltk] at hat
  rw [← Option.some.inj hat, not_hasId_unnamed] at hidz
  cases hidz

/-! ### How far they reach -/

/-- The effects of an operator on its actor change the first character with the id of the actor and
nothing else, whatever comes of them, if in each story that they meet what the id reaches among the
characters is that one or none. This is so if no other character has for its id what the id of the
actor looks up first in a path. For an id without points and brackets, no operator with such effects
changes more just if no other character has the id. -/
theorem effects_stay_with_actor (hread : Story.read document = .ok story)
    (hactor : story.actorAt? id = some i) (hbound : bindings.actor = some id) (tag : Tag) :
    (∀ op : Operator, (∀ d ∈ op.effects, d.IsOnActor) →
      (Delta.InTurn (fun s _ => s.Finds id i) story (op.effects.map (bindEffect bindings)) →
        story.ChangedAt i (apply story op bindings tag).story) ∧
      ((∀ x ∈ story.characters.items.eraseIdx i, x.id? ≠ Place.firstName? id) →
        Delta.InTurn (fun s _ => s.Finds id i) story (op.effects.map (bindEffect bindings)))) ∧
    (Segment.IsName id →
      ((∀ op : Operator, (∀ d ∈ op.effects, d.IsOnActor) →
        story.ChangedAt i (apply story op bindings tag).story) ↔
      ∀ x ∈ story.characters.items.eraseIdx i, x.id? ≠ some id)) := by
  have hpeopled := Story.peopled_of_read hread
  have hi := lt_of_actorAt? hactor
  have hself := Story.changedAt_self hpeopled (List.getElem?_eq_getElem hi)
  have hone : ∀ op : Operator, (∀ d ∈ op.effects, d.IsOnActor) →
      (Delta.InTurn (fun s _ => s.Finds id i) story (op.effects.map (bindEffect bindings)) →
        story.ChangedAt i (apply story op bindings tag).story) ∧
      ((∀ x ∈ story.characters.items.eraseIdx i, x.id? ≠ Place.firstName? id) →
        Delta.InTurn (fun s _ => s.Finds id i) story (op.effects.map (bindEffect bindings))) :=
    fun op hop => ⟨fun hfinds => changedAt_apply hpeopled hi hbound hop hfinds tag,
      fun halone => finds_inTurn_of_alone hpeopled hbound halone hop hself⟩
  refine ⟨hone, fun hname => ⟨fun hall x hx hid => ?_, fun halone op hop => ?_⟩⟩
  · obtain ⟨j, hj, hget⟩ := List.mem_eraseIdx_iff_getElem?.1 hx
    exact namesake_reached hread hactor hbound hname hj hget hid tag
      (hall unnamingTwice isOnActor_unnamingTwice)
  · rw [← Place.firstName?_of_isName hname] at halone
    obtain ⟨hstays, hfinds⟩ := hone op hop
    exact hstays (hfinds halone)

/-- The document of a story with two characters, the id of the one being a path into the other. -/
def dottedDocument : Value :=
  .mapping [("characters", .list [
    .mapping [("id", .text "a"), ("stats", .mapping [("wealth", .int 1)])],
    .mapping [("id", .text "a.stats"), ("wealth", .int 1)]])]

/-- An operator that sets a value of its actor. -/
def settingActor (rest : String) (v : Value) : Operator :=
  ⟨"o", [], [], [⟨.set, Role.actor.path rest.toList, v, none, none, none, none⟩], .null⟩

theorem isOnActor_settingActor (rest : String) (v : Value) :
    ∀ d ∈ (settingActor rest v).effects, d.IsOnActor :=
  List.forall_mem_singleton.2 ⟨by simp, rest.toList, rfl⟩

/-- What the first of the two characters has for its wealth. -/
def firstWealth (story : Story) : Option Number :=
  (story.characters.items[0]?.bind fun x =>
    (x.follow [.slot (.field "stats"), .key "wealth"]).toOption).bind Value.number?

/-- The first of the two is the actor and gets another id. -/
theorem effects_stay_with_actor_renamed : ∃ story, Story.read dottedDocument = .ok story ∧
    (apply story (settingActor "id" (.text "b")) ⟨some "a", none, none⟩
      ⟨none, none⟩).story.characters.items.map Value.id? = [some "b", some "a.stats"] ∧
    story.ChangedAt 0 (apply story (settingActor "id" (.text "b")) ⟨some "a", none, none⟩
      ⟨none, none⟩).story := by
  obtain ⟨story, hread, hactor, halone, hids⟩ := Story.exists_read dottedDocument (fun story =>
    story.actorAt? "a" = some 0 ∧
    (∀ x ∈ story.characters.items.eraseIdx 0, x.id? ≠ Place.firstName? "a") ∧
    (apply story (settingActor "id" (.text "b")) ⟨some "a", none, none⟩
      ⟨none, none⟩).story.characters.items.map Value.id? = [some "b", some "a.stats"])
    (by decide +kernel)
  have hbound : (⟨some "a", none, none⟩ : Bindings).actor = some "a" := rfl
  obtain ⟨hstays, hfinds⟩ := (effects_stay_with_actor hread hactor hbound ⟨none, none⟩).1 _
    (isOnActor_settingActor "id" (.text "b"))
  exact ⟨story, hread, hids, hstays (hfinds halone)⟩

/-! ### Another character in the place of the actor -/

/-- The second of the two is the actor, and its effect changes the first. -/
theorem effects_reach_other : ∃ story, Story.read dottedDocument = .ok story ∧
    story.actorAt? "a.stats" = some 1 ∧
    (∀ d ∈ (settingActor "wealth" (.int 9)).effects, d.IsOnActor) ∧
    ¬ story.ChangedAt 1 (apply story (settingActor "wealth" (.int 9))
      ⟨some "a.stats", none, none⟩ ⟨none, none⟩).story := by
  obtain ⟨story, hread, hactor, hbefore, hafter⟩ := Story.exists_read dottedDocument (fun story =>
    story.actorAt? "a.stats" = some 1 ∧ firstWealth story = some (.int 1) ∧
    firstWealth (apply story (settingActor "wealth" (.int 9)) ⟨some "a.stats", none, none⟩
      ⟨none, none⟩).story = some (.int 9)) (by decide +kernel)
  refine ⟨story, hread, hactor, isOnActor_settingActor _ _, fun hchanged => ?_⟩
  rw [firstWealth, hchanged.getElem? (by decide), ← firstWealth, hbefore] at hafter
  revert hafter
  decide

end Operator

end StoryWorld
