import StoryWorld.Proofs.Frame

/-!
Places in the document of a story.

Every part of a value in order has its place in the document of the value: the key of a declared
field is its name in documents, that of an extra field its own name. A change of the value along its
parts is the same change of the document at that place, and leaves the rest of the document as it
was. The places of a story are its parts as one entity, so the same is true of them.
-/

namespace StoryWorld

namespace Table

variable {κ α ι β : Type} [DecidableEq κ] [DecidableEq ι] {f : κ → ι} {g : α → β} {key : κ}
  {t : List (κ × α)}

/-- A key that no other key of a table is renamed to is found under its new name. -/
theorem get?_rename (h : ∀ k ∈ keys t, f k = f key → k = key) :
    get? (f key) (t.map fun e => (f e.1, g e.2)) = (get? key t).map g := by
  induction t with
  | nil => rfl
  | cons entry rest ih =>
    obtain ⟨k, v⟩ := entry
    rw [keys, List.map_cons, List.forall_mem_cons] at h
    rw [List.map_cons, get?_cons, get?_cons]
    by_cases hk : k = key
    · rw [if_pos hk, if_pos (congrArg f hk)]
      rfl
    · rw [if_neg hk, if_neg fun hf => hk (h.1 hf), ih h.2]

theorem put_rename (h : ∀ k ∈ keys t, f k = f key → k = key) (v : α) :
    (put key v t).map (fun e => (f e.1, g e.2)) =
      put (f key) (g v) (t.map fun e => (f e.1, g e.2)) := by
  induction t with
  | nil => rfl
  | cons entry rest ih =>
    obtain ⟨k, x⟩ := entry
    rw [keys, List.map_cons, List.forall_mem_cons] at h
    rw [List.map_cons, put, put]
    by_cases hk : k = key
    · rw [if_pos hk, if_pos (congrArg f hk)]
      rfl
    · rw [if_neg hk, if_neg fun hf => hk (h.1 hf), List.map_cons, ih h.2]

end Table

/-- The key that a slot of an entity has in its document. -/
def Slot.documentKey (kind : Kind) : Slot → String
  | field name => kind.external name
  | extra name | attached name => name
  | given => Kind.givenName

theorem Kind.external_eq {kind : Kind} {f : Field × Shape} (hf : f ∈ kind.fields) :
    kind.external f.1.name = f.1.external := by
  have hfind : kind.field? f.1.name = some f := by
    have hsome : (kind.field? f.1.name).isSome = true := by
      rw [Kind.field?, List.find?_isSome]
      exact ⟨f, hf, by simp⟩
    obtain ⟨g, hg⟩ := Option.isSome_iff_exists.1 hsome
    have hname : g.1.name = f.1.name := by simpa using List.find?_some hg
    rw [hg, List.inj_on_of_nodup_map (Schema.nodup_names kind) (List.mem_of_find?_eq_some hg) hf
      hname]
  rw [Kind.external, hfind]

/-- No two slots of an entity in order have one key in its document. -/
theorem OrderlyKeys.nodup {kind : Kind} {keys : List Slot} (h : OrderlyKeys kind keys) :
    (keys.map (Slot.documentKey kind)).Nodup := by
  obtain ⟨extra, rfl, hextra, hfresh⟩ := h
  have hfields : kind.fields.map (Slot.documentKey kind ∘ fun f => Slot.field f.1.name) =
      kind.fields.map fun f => f.1.external :=
    List.map_congr_left fun f hf => Kind.external_eq hf
  have hextras : extra.map (Slot.documentKey kind ∘ Slot.extra) = extra := List.map_id' extra
  rw [List.map_append, List.map_map, List.map_map, hfields, hextras, List.nodup_append]
  refine ⟨Schema.nodup_externals kind, hextra, ?_⟩
  rintro _ hk l hl rfl
  obtain ⟨f, hf, rfl⟩ := List.mem_map.1 hk
  exact hfresh f hf hl

/-- The slot of an entity in order is told by its key in the document. -/
theorem OrderlyKeys.inj {kind : Kind} {keys : List Slot} (h : OrderlyKeys kind keys) {n : Slot}
    (hn : n ∈ keys) : ∀ m ∈ keys, m.documentKey kind = n.documentKey kind → m = n :=
  fun _ hm heq => List.inj_on_of_nodup_map h.nodup hm hn heq

/-- They are all part of it. -/
theorem OrderlyKeys.isDocumented {kind : Kind} {keys : List Slot} (h : OrderlyKeys kind keys) :
    ∀ n ∈ keys, n.isDocumented = true := by
  obtain ⟨extra, rfl, -⟩ := h
  intro n hn
  rcases List.mem_append.1 hn with hn | hn
  · obtain ⟨f, -, rfl⟩ := List.mem_map.1 hn
    rfl
  · obtain ⟨name, -, rfl⟩ := List.mem_map.1 hn
    rfl

namespace Value

variable {v w old new : Value} {s : Step} {steps : List Step} {kind : Kind}
  {slots : List (Slot × Value)}

/-- An entity in order has nothing in a slot that is no part of its document. -/
theorem Orderly.get?_undocumented {slot : Slot} (h : (Value.entity kind slots).Orderly)
    (hslot : slot.isDocumented = false) : Table.get? slot slots = none := by
  cases h with
  | entity hkeys _ =>
    refine Table.get?_eq_none_iff.2 fun hmem => ?_
    rw [hkeys.isDocumented slot hmem] at hslot
    cases hslot

/-- It notes what it is given. -/
theorem Orderly.notes (h : (Value.entity kind slots).Orderly) : Assign.notes slots = true := by
  have hgiven : Table.get? .given slots = none := h.get?_undocumented rfl
  rw [Assign.notes, Table.has, hgiven]
  rfl

/-- The document of an entity has an entry for each of its slots if they are all part of it. -/
theorem dumpSlots_eq (h : ∀ n ∈ Table.keys slots, n.isDocumented = true) :
    dumpSlots kind slots = slots.map fun e => (e.1.documentKey kind, e.2.dump) := by
  induction slots with
  | nil => rfl
  | cons e rest ih =>
    obtain ⟨slot, x⟩ := e
    have hslot := h slot List.mem_cons_self
    have hrest := ih fun n hmem => h n (List.mem_cons_of_mem _ hmem)
    cases slot with
    | field name => rw [dumpSlots, hrest]; rfl
    | extra name => rw [dumpSlots, hrest]; rfl
    | attached name => cases hslot
    | given => cases hslot

/-- The step in the document of a value that a step into the value has. -/
def documentStep (v : Value) (s : Step) : Step :=
  match v, s with
  | entity kind _, .slot n => .key (n.documentKey kind)
  | _, s => s

/-- The steps in the document of a value that steps into the value have. -/
def documentSteps : Value → List Step → List Step
  | _, [] => []
  | v, s :: rest =>
    v.documentStep s ::
      match v.read s with
      | .ok w => documentSteps w rest
      | .error _ => rest

/-- What a part of a value in order leads to has its document at the part's place in that of the
value. -/
theorem read_dump (h : v.Orderly) (hs : s.isDocumented = true) (hw : v.read s = .ok w) :
    (v.documentStep s).isDocumented = true ∧ v.dump.read (v.documentStep s) = .ok w.dump := by
  rcases read_documented hs hw with ⟨kind, slots, n, rfl, rfl, hget⟩ | ⟨es, k, rfl, rfl, hget⟩ |
    ⟨xs, i, rfl, rfl, hget⟩
  · cases h with
    | entity hkeys _ =>
      have hinj := hkeys.inj (Table.mem_keys_of_get? hget)
      refine ⟨rfl, read_key.2 ?_⟩
      rw [dumpSlots_eq hkeys.isDocumented, Table.get?_rename (g := dump) hinj, hget]
      rfl
  · refine ⟨rfl, read_key.2 ?_⟩
    have hget' : Table.get? k (es.map fun e => (e.1, e.2.dump)) = (Table.get? k es).map dump :=
      @Table.get?_rename _ _ _ _ _ _ id dump k es fun _ _ heq => heq
    rw [dumpEntries_eq, hget', hget]
    rfl
  · refine ⟨rfl, read_item.2 ?_⟩
    rw [dumpItems_eq, List.getElem?_map, hget]
    rfl

/-- Something else in a part of a value in order is something else at the part's place in the
document. -/
theorem dump_put (h : v.Orderly) (hs : s.isDocumented = true) (hold : v.read s = .ok old) :
    (v.put s new).dump = v.dump.put (v.documentStep s) new.dump := by
  rcases read_documented hs hold with ⟨kind, slots, n, rfl, rfl, hget⟩ | ⟨es, k, rfl, rfl, hget⟩ |
    ⟨xs, i, rfl, rfl, -⟩
  · cases h with
    | entity hkeys _ =>
      have hinj := hkeys.inj (Table.mem_keys_of_get? hget)
      have hput := hkeys
      rw [← Table.keys_put (v := new) (Table.has_iff.2 ⟨old, hget⟩)] at hput
      rw [put, dump, dump, dumpSlots_eq hkeys.isDocumented, dumpSlots_eq hput.isDocumented,
        Table.put_rename hinj]
      rfl
  · have hput : (Table.put k new es).map (fun e => (e.1, e.2.dump)) =
        Table.put k new.dump (es.map fun e => (e.1, e.2.dump)) :=
      @Table.put_rename _ _ _ _ _ _ id dump k es (fun _ _ heq => heq) new
    rw [put, dump, dump, dumpEntries_eq, dumpEntries_eq, hput]
    rfl
  · rw [put, dump, dump, dumpItems_eq, dumpItems_eq, List.map_set]
    rfl

theorem documentSteps_cons (h : v.read s = .ok w) (rest : List Step) :
    v.documentSteps (s :: rest) = v.documentStep s :: w.documentSteps rest := by
  rw [documentSteps, h]

theorem follow_dump (h : v.Orderly) (hd : ∀ s ∈ steps, s.isDocumented = true)
    (hw : v.follow steps = .ok w) : (∀ s ∈ v.documentSteps steps, s.isDocumented = true) ∧
      v.dump.follow (v.documentSteps steps) = .ok w.dump := by
  induction steps generalizing v with
  | nil =>
    obtain rfl := by simpa [follow] using hw
    exact ⟨by simp [documentSteps], rfl⟩
  | cons s rest ih =>
    rw [List.forall_mem_cons] at hd
    obtain ⟨x, hx, hrest⟩ := follow_cons.1 hw
    obtain ⟨hs, hread⟩ := read_dump h hd.1 hx
    obtain ⟨hsteps, hfollow⟩ := ih (h.read hd.1 hx) hd.2 hrest
    rw [documentSteps_cons hx, List.forall_mem_cons]
    exact ⟨⟨hs, hsteps⟩, follow_cons.2 ⟨_, hread, hfollow⟩⟩

/-- The document of a value that is changed along its parts is the document changed at the same
place. -/
theorem dump_replace (h : v.Orderly) (hd : ∀ s ∈ steps, s.isDocumented = true)
    (hold : v.follow steps = .ok old) :
    (v.replace steps new).dump = v.dump.replace (v.documentSteps steps) new.dump := by
  induction steps generalizing v with
  | nil => rfl
  | cons s rest ih =>
    rw [List.forall_mem_cons] at hd
    obtain ⟨x, hx, hrest⟩ := follow_cons.1 hold
    obtain ⟨hs, hread⟩ := read_dump h hd.1 hx
    rw [replace_cons hd.1 hx, documentSteps_cons hx, replace_cons hs hread, dump_put h hd.1 hx,
      ih (h.read hd.1 hx) hd.2 hrest]

end Value

/-! ### Places as parts of the story -/

namespace Place

variable {story : Story} {place other : Place} {v w old : Value}

/-- The steps to a place from the story as a whole. -/
def route (place : Place) : List Step := .slot (.field place.root.name) :: place.steps

/-- Whether a place lies apart from another one: neither inside it nor around it. -/
def Apart (place other : Place) : Prop :=
  ¬ place.route <+: other.route ∧ ¬ other.route <+: place.route

instance (place other : Place) : Decidable (place.Apart other) :=
  inferInstanceAs (Decidable (_ ∧ _))

/-- Whether a place is a part of the document of its story: no step to it is by a name that an
entity computes, has built in, or was given beside its document. -/
def isDocumented (place : Place) : Bool := place.steps.all Step.isDocumented

theorem isDocumented_iff :
    place.isDocumented = true ↔ ∀ s ∈ place.steps, s.isDocumented = true := List.all_eq_true

theorem documented_route (h : place.isDocumented = true) :
    ∀ s ∈ place.route, s.isDocumented = true :=
  List.forall_mem_cons.2 ⟨rfl, isDocumented_iff.1 h⟩

end Place

namespace Story

theorem read_root (story : Story) (r : Root) :
    story.toEntity.read (.slot (.field r.name)) = .ok (story.root r) := by
  cases r <;> rfl

theorem toEntity_setRoot (story : Story) (r : Root) (v : Value) :
    (story.setRoot r v).toEntity = story.toEntity.put (.slot (.field r.name)) v := by
  cases r <;> rfl

theorem toEntity_injective {s t : Story} (h : s.toEntity = t.toEntity) : s = t := by
  obtain ⟨-, hslots⟩ := Value.entity.inj h
  obtain ⟨sworld, scharacters, srelationships, ssecrets, sassets, sthreads, sfactions, sconstraints,
    sextra⟩ := s
  obtain ⟨tworld, tcharacters, trelationships, tsecrets, tassets, tthreads, tfactions, tconstraints,
    textra⟩ := t
  simp only [List.cons_append, List.nil_append, List.cons.injEq, Prod.mk.injEq, true_and] at hslots
  obtain ⟨rfl, rfl, rfl, rfl, rfl, rfl, rfl, rfl, hextra⟩ := hslots
  have hinj : Function.Injective fun e : String × Value => (Slot.extra e.1, e.2) := by
    rintro ⟨k, v⟩ ⟨l, w⟩ heq
    simpa using heq
  rw [List.map_injective_iff.2 hinj hextra]

theorem orderly_root {story : Story} (h : story.toEntity.Orderly) (r : Root) :
    (story.root r).Orderly :=
  h.read rfl (story.read_root r)

end Story

namespace Place

variable {story : Story} {place other : Place} {v w old : Value}

theorem route_injective (h : place.route = other.route) : place = other := by
  obtain ⟨hroot, hsteps⟩ := List.cons.inj h
  have hname : place.root.name = other.root.name := by simpa using hroot
  have hsame : place.root = other.root := by simpa using congrArg Root.ofName? hname
  have heq := ofSteps_steps place
  rw [hsteps, hsame, ofSteps_steps] at heq
  exact (Option.some.inj heq).symm

theorem follow_route : story.toEntity.follow place.route = .ok w ↔ place.read story = .ok w := by
  rw [read_eq, route, Value.follow_cons, Story.read_root]
  simp [steps]

theorem toEntity_put (story : Story) (place : Place) (v : Value) :
    (place.put story v).toEntity = story.toEntity.replace place.route v := by
  rw [route, Value.replace_cons rfl (story.read_root place.root), put, Story.toEntity_setRoot]
  rfl

/-- The steps to a place in the document of the story. -/
def documentSteps (story : Story) (place : Place) : List Step :=
  story.toEntity.documentSteps place.route

section Documented

variable (h : story.toEntity.Orderly) (hd : place.isDocumented = true)
  (hold : place.read story = .ok old)
include h hd hold

theorem orderly_put (hv : v.Orderly) : (place.put story v).toEntity.Orderly := by
  rw [toEntity_put]
  exact h.replace (documented_route hd) (follow_route.2 hold) hv

/-- The document of a story with something else at a place is the document with that at the same
place. -/
theorem dump_put :
    (place.put story v).dump = story.dump.replace (place.documentSteps story) v.dump := by
  rw [Story.dump, toEntity_put]
  exact Value.dump_replace h (documented_route hd) (follow_route.2 hold)

theorem follow_dump_put :
    (place.put story v).dump.follow (place.documentSteps story) = .ok v.dump := by
  obtain ⟨hsteps, hfollow⟩ := Value.follow_dump h (documented_route hd) (follow_route.2 hold)
  rw [dump_put h hd hold]
  exact Value.follow_replace_self hsteps hfollow

end Documented

/-! ### Places after a change -/

/-- A path along parts of the document leads to a place that can be read. -/
theorem read_of_resolve {path : String} (h : story.toEntity.Orderly)
    (hd : place.isDocumented = true) (hplace : resolve story path = .ok place) :
    ∃ w, place.read story = .ok w := by
  obtain ⟨parts, segments, -, -, hlocate⟩ := resolve_ok.1 hplace
  obtain ⟨w, hw⟩ := (Locate.locate_ok.1 hlocate).2.follow (Story.orderly_root h _)
    (isDocumented_iff.1 hd)
  exact ⟨w, by rw [read_eq]; exact hw⟩

theorem read_put_self (hd : place.isDocumented = true) (hold : place.read story = .ok old) :
    place.read (place.put story v) = .ok v := by
  rw [← follow_route, toEntity_put]
  exact Value.follow_replace_self (documented_route hd) (follow_route.2 hold)

/-- Places apart from a change keep what they hold. -/
theorem read_put_of_apart (hd : place.isDocumented = true) (hd' : other.isDocumented = true)
    (hapart : place.Apart other) (hold : place.read story = .ok old)
    (hw : other.read story = .ok w) : other.read (place.put story v) = .ok w := by
  rw [← follow_route, toEntity_put, Value.follow_replace_of_apart (documented_route hd)
    (documented_route hd') hapart.1 hapart.2 (follow_route.2 hold)]
  exact follow_route.2 hw

/-- Changes at places apart can be made in either order. -/
theorem put_put_comm {x : Value} (hd : place.isDocumented = true)
    (hd' : other.isDocumented = true) (hapart : place.Apart other)
    (hold : place.read story = .ok old) (hw : other.read story = .ok w) :
    other.put (place.put story v) x = place.put (other.put story x) v := by
  refine Story.toEntity_injective ?_
  rw [toEntity_put, toEntity_put, toEntity_put, toEntity_put]
  exact Value.replace_replace_comm (documented_route hd) (documented_route hd') hapart.1 hapart.2
    (follow_route.2 hold) (follow_route.2 hw)

/-- A path leads to the same place after a change that is not on its way and leaves the items of
lists to be found as they were. -/
theorem resolve_put {path : String} (hd : place.isDocumented = true)
    (hd' : other.isDocumented = true) (hold : place.read story = .ok old)
    (hids : Value.KeepsIds v (story.root place.root) place.steps)
    (haway : ∀ t rest, other.route ≠ place.route ++ t :: rest)
    (h : resolve story path = .ok other) : resolve (place.put story v) path = .ok other := by
  by_cases hroot : other.root = place.root
  · obtain ⟨parts, segments, hsplit, hparse, hlocate⟩ := resolve_ok.1 h
    obtain ⟨hsegments, hleads⟩ := Locate.locate_ok.1 hlocate
    refine resolve_ok.2 ⟨parts, segments, hsplit, hparse, Locate.locate_ok.2 ⟨hsegments, ?_⟩⟩
    rw [hroot] at hleads ⊢
    rw [put, Story.root_setRoot_self]
    have hfollow : (story.root place.root).follow place.steps = .ok old := by
      rw [← hold, read_eq, steps]
    exact hleads.replace (isDocumented_iff.1 hd') (isDocumented_iff.1 hd) hfollow hids
      fun t rest heq => haway t rest (by rw [route, route, hroot, heq]; rfl)
  · exact resolve_congr h (Story.root_setRoot_of_ne story hroot _).symm

end Place

end StoryWorld
