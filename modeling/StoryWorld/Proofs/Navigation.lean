import StoryWorld.Proofs.Dumped
import StoryWorld.Proofs.Standing

/-!
Reading by path and walking along the document.

A path can be followed in the document of a story as well as in the story, by what the shapes say
about the parts of the document: a name selects the declared field that goes by it, inside or in
documents, else an extra field, or the key of a mapping, or the first item of a list whose `id` it is.
Both ways lead to the same, except where a path passes an extra field under a name that the entity
has for something else.
-/

namespace StoryWorld

namespace Shape

/-- The shape of what is inside a list or a mapping of a shape. -/
def inside : Shape → Shape
  | .list item | .mapping item => item
  | _ => .any

theorem inside_of_isSingle {shape : Shape} (h : shape.isSingle = true) :
    shape.inside = .any ∧ ∀ kind fields, shape ≠ .record kind fields := by
  cases shape <;> first | exact ⟨rfl, fun _ _ => Shape.noConfusion⟩ | cases h

theorem core_ne_optional (inner : Shape) : ∀ shape : Shape, shape.core ≠ .optional inner
  | .optional shape => core_ne_optional inner shape
  | .any | .truth | .text | .choice _ | .whole | .real | .number | .list _ | .mapping _
  | .record _ _ => Shape.noConfusion

end Shape

/-- The declared field that a name selects: the one of that name, else the one that goes by it in
documents. -/
def Kind.selected? (kind : Kind) (name : String) : Option (Field × Shape) :=
  (kind.fields.find? fun f => f.1.name == name).or
    (kind.fields.find? fun f => f.1.external == name)

theorem Kind.selected?_mem {kind : Kind} {name : String} {f : Field × Shape}
    (h : kind.selected? name = some f) : f ∈ kind.fields := by
  rcases Option.or_eq_some_iff.1 h with h | ⟨-, h⟩ <;> exact List.mem_of_find?_eq_some h

theorem Locate.declared?_eq (kind : Kind) (name : String) :
    declared? kind name = (kind.selected? name).map (·.1.name) := by
  rw [declared?, Kind.selected?]
  cases kind.fields.find? fun f => f.1.name == name <;> rfl

/-! ### Walking along a document -/

/-- A part of a document, with the shape that it is read as. -/
structure Excerpt where
  shape : Shape
  document : Value

namespace Excerpt

open Locate

/-- Whether a part of a document goes by an id. -/
def hasId (id : String) : Value → Bool
  | .mapping es =>
    match Table.get? "id" es with
    | some (.text s) => s == id
    | _ => false
  | _ => false

/-- What a name selects directly under a part of a document. -/
def select (e : Excerpt) (name : String) : Option Excerpt :=
  match e.shape.core, e.document with
  | .record kind _, .mapping es =>
    match kind.selected? name with
    | some f => (Table.get? f.1.external es).map fun d => ⟨f.2, d⟩
    | none => (Table.get? name es).map fun d => ⟨.any, d⟩
  | shape, .mapping es => (Table.get? name es).map fun d => ⟨shape.inside, d⟩
  | shape, .list xs => (xs.find? (hasId name)).map fun d => ⟨shape.inside, d⟩
  | _, _ => none

/-- The item of a list at a position. -/
def item (e : Excerpt) (i : Nat) : Option Excerpt :=
  match e.document with
  | .list xs => xs[i]?.map fun d => ⟨e.shape.core.inside, d⟩
  | _ => none

/-- What a look-up of a path selects. -/
def look (e : Excerpt) : Lookup → Option Excerpt
  | .name name => e.select name
  | .inside _ (.key k) => e.select k
  | .inside _ (.position i) => e.item i

/-- What the segments of a path lead to. -/
def walk (e : Excerpt) (segments : List Segment) : Option Excerpt :=
  (segments.flatMap lookups).foldlM look e

/-! ### What is found under an id -/

/-- The field for ids, if a kind has one, is the one that goes by that name in documents. -/
theorem external_id (kind : Kind) :
    ∀ f ∈ kind.fields, f.1.external = "id" ↔ f.1.name = "id" := by
  cases kind <;> decide

variable {v w : Value} {kind : Kind} {slots : List (Slot × Value)} {shape : Shape} {name : String}
  {s : Step} {path : String}

/-- What an entity has under a key of its document stands in the slot of that key. -/
theorem get?_dumpSlots (h : (Value.entity kind slots).Orderly) {n : Slot}
    (hget : Table.get? n slots = some w) :
    Table.get? (n.documentKey kind) (Value.dumpSlots kind slots) = some w.dump := by
  cases h with
  | entity hkeys _ =>
    have hinj := hkeys.inj (Table.mem_keys_of_get? hget)
    rw [Value.dumpSlots_eq hkeys.isDocumented, Table.get?_rename (g := Value.dump) hinj, hget]
    rfl

/-- Of the slots of an entity in order those for ids have that key in the document. -/
theorem documentKey_id {keys : List Slot} (hkeys : OrderlyKeys kind keys) {n : Slot} (hn : n ∈ keys) :
    n.documentKey kind = "id" ↔ n = .field "id" ∨ n = .extra "id" := by
  cases n with
  | field name =>
    obtain ⟨extra, rfl, -⟩ := hkeys
    obtain ⟨f, hf, rfl⟩ : ∃ f ∈ kind.fields, f.1.name = name := by simpa using hn
    rw [Slot.documentKey, Kind.external_eq hf, external_id kind f hf]
    simp
  | extra name => simp [Slot.documentKey]
  | attached name => cases hkeys.isDocumented _ hn
  | given => cases hkeys.isDocumented _ hn

/-- What a value goes by has its document under the key for ids. -/
theorem idOf_dump (h : v.Orderly) : idOf v.dump = (idOf v).dump := by
  cases h with
  | @mapping es _ =>
    have hget : Table.get? "id" (es.map fun e => (e.1, e.2.dump)) =
        (Table.get? "id" es).map Value.dump :=
      @Table.get?_rename _ _ _ _ _ _ id Value.dump "id" es fun _ _ heq => heq
    rw [Value.dump, idOf, idOf, Value.dumpEntries_eq, hget]
    cases Table.get? "id" es <;> rfl
  | @entity kind slots hkeys hslots =>
    have hattached : Table.get? (.attached "id") slots = none :=
      Value.Orderly.get?_undocumented (.entity hkeys hslots) rfl
    rw [Value.dump, idOf, idOf, hattached, Option.or_none]
    cases hfield : Table.get? (.field "id") slots with
    | some x =>
      have hkey := (documentKey_id hkeys (Table.mem_keys_of_get? hfield)).2 (.inl rfl)
      have hdump := get?_dumpSlots (.entity hkeys hslots) hfield
      rw [hkey] at hdump
      rw [hdump]
      rfl
    | none =>
      cases hextra : Table.get? (.extra "id") slots with
      | some x =>
        have hdump : Table.get? "id" (Value.dumpSlots kind slots) = some x.dump :=
          get?_dumpSlots (.entity hkeys hslots) hextra
        rw [hdump]
        rfl
      | none =>
        have hnone : Table.get? "id" (Value.dumpSlots kind slots) = none := by
          rw [Value.dumpSlots_eq hkeys.isDocumented, Table.get?_eq_none_iff, Table.keys, List.map_map]
          intro hmem
          obtain ⟨⟨n, x⟩, hn, hkey⟩ := List.mem_map.1 hmem
          have hmem : n ∈ Table.keys slots := List.mem_map.2 ⟨_, hn, rfl⟩
          rcases (documentKey_id hkeys hmem).1 hkey with rfl | rfl
          · exact Table.get?_eq_none_iff.1 hfield hmem
          · exact Table.get?_eq_none_iff.1 hextra hmem
        rw [hnone]
        rfl
  | _ => rfl

/-- An item of a list is found under an id just if its document is. -/
theorem hasId_dump (h : v.Orderly) (id : String) : hasId id v.dump = Locate.hasId id v := by
  have hequal : ∀ x : Value, x.equal (.text id) = x.dump.equal (.text id) := by
    intro x
    cases x <;> simp [Value.equal, Value.dump]
  have hmapping : ∀ es, hasId id (.mapping es) = (idOf (.mapping es)).equal (.text id) := by
    intro es
    rw [hasId, idOf]
    cases Table.get? "id" es with
    | none => simp [Value.equal]
    | some x => cases x <;> simp [Value.equal]
  rw [Locate.hasId, hequal, ← idOf_dump h]
  cases v with
  | mapping | entity =>
    rw [Value.dump]
    exact hmapping _
  | _ => simp [Value.dump, hasId, idOf, Value.equal]

/-! ### Steps along a story and its document -/

/-- What is relied on of a part of a story: it was read as its shape, and is in order. -/
structure Fits (shape : Shape) (v : Value) : Prop where
  held : Schema.Held shape v
  storable : Schema.Storable shape
  orderly : v.Orderly

/-- A part of a document fits wherever its shape says nothing. -/
theorem fits_any (h : v.isDocument = true) : Fits .any v :=
  ⟨.inl ⟨v, h, rfl⟩, trivial, Value.orderly_of_isDocument v h⟩

theorem Fits.core (hnull : v ≠ .null) : ∀ {shape : Shape}, Fits shape v → Fits shape.core v
  | .optional inner, h => by
    rw [Shape.core]
    exact Fits.core hnull ⟨Schema.held_optional hnull h.held, h.storable, h.orderly⟩
  | .any, h | .truth, h | .text, h | .choice _, h | .whole, h | .real, h | .number, h
  | .list _, h | .mapping _, h | .record _ _, h => h

section Entity

variable (hkind : kind.inStory = true) (hheld : Schema.Held kind.shape (.entity kind slots))
include hkind hheld

/-- What was read into a declared field was read as its shape. -/
theorem held_field {f : Field × Shape} (hf : f ∈ kind.fields)
    (hget : Table.get? (.field f.1.name) slots = some w) : Schema.Held f.2 w := by
  obtain ⟨value, extra, hentity, heq, -⟩ := Schema.heldEntity_of_validate
    (Schema.inOrder_kind hkind) (Schema.unknown_of_inStory hkind) hheld
  obtain ⟨-, rfl⟩ := Value.entity.inj heq
  rw [Schema.get?_declaredSlots (Schema.inOrder_kind hkind) hf] at hget
  exact Option.some.inj hget ▸ (hentity.held f hf).1

/-- What was read into an extra field is a document. -/
theorem isDocument_extra (hget : Table.get? (.extra name) slots = some w) : w.isDocument = true := by
  obtain ⟨value, extra, hentity, heq, -⟩ := Schema.heldEntity_of_validate
    (Schema.inOrder_kind hkind) (Schema.unknown_of_inStory hkind) hheld
  obtain ⟨-, rfl⟩ := Value.entity.inj heq
  rcases List.mem_append.1 (Table.mem_of_get? hget) with hmem | hmem
  · obtain ⟨f, -, hf⟩ := List.mem_map.1 hmem
    cases hf
  · obtain ⟨e, he, heq⟩ := List.mem_map.1 hmem
    cases heq
    exact hentity.documents e he

/-- A name selects the document of the slot of an entity to which it leads. -/
theorem select_entity (hcore : shape.core = kind.shape) (ho : (Value.entity kind slots).Orderly)
    (h : child path (.entity kind slots) name = .ok s) (hs : s.isDocumented = true)
    (hw : (Value.entity kind slots).read s = .ok w) :
    ∃ inner, select ⟨shape, (Value.entity kind slots).dump⟩ name = some ⟨inner, w.dump⟩ ∧
      Fits inner w := by
  have horderly := ho.read hs hw
  simp only [child] at h
  split at h
  · next step hstep =>
    cases h
    rw [fieldStep?, declared?_eq] at hstep
    simp only [select, hcore, Kind.shape, Value.dump]
    cases hselected : kind.selected? name with
    | some f =>
      rw [hselected] at hstep
      cases hstep
      have hf := Kind.selected?_mem hselected
      have hget := Value.read_slot.1 hw
      have hdump := get?_dumpSlots ho hget
      rw [Slot.documentKey, Kind.external_eq hf] at hdump
      refine ⟨f.2, by simp only [hdump, Option.map_some], held_field hkind hheld hf hget, ?_, horderly⟩
      exact (Schema.storableFields_kind hkind f hf).2
    | none =>
      rw [hselected] at hstep
      obtain ⟨-, rfl⟩ := by simpa using hstep
      rcases extraStep_held (Step.isHeld_of_isDocumented hs) with ⟨slot, hslot, -, hextra⟩ | hextra
      · rw [hextra] at hs
        rcases hslot with rfl | rfl <;> cases hs
      · rw [hextra] at hw
        have hget := Value.read_slot.1 hw
        have hdump : Table.get? name (Value.dumpSlots kind slots) = some w.dump :=
          get?_dumpSlots ho hget
        exact ⟨.any, by simp only [hdump, Option.map_some], fits_any (isDocument_extra hkind hheld hget)⟩
  · cases h

end Entity

/-- What was read as a shape is an entity of its kind, a list or a mapping of what was read as the
shape inside, or a document where the shape says nothing of what is inside. -/
theorem Fits.cases (h : Fits shape v) (hnull : v ≠ .null) :
    (∃ kind slots, v = .entity kind slots ∧ shape.core = kind.shape ∧ kind.inStory = true ∧
        Schema.Held kind.shape v) ∨
      (∃ item xs, v = .list xs ∧ shape.core = .list item ∧ ∀ x ∈ xs, Fits item x) ∨
      (∃ item es, v = .mapping es ∧ shape.core = .mapping item ∧ ∀ e ∈ es, Fits item e.2) ∨
      v.isDocument = true ∧ shape.core.isSingle = true := by
  obtain ⟨hheld, hstorable, horderly⟩ := h.core hnull
  generalize hcore : shape.core = core at hheld hstorable
  cases core with
  | record kind fields =>
    obtain ⟨hkind, -, rfl⟩ := hstorable
    obtain ⟨_, _, -, rfl, -⟩ := Schema.heldEntity_of_validate
      (Schema.inOrder_kind hkind) (Schema.unknown_of_inStory hkind) hheld
    exact .inl ⟨kind, _, rfl, rfl, hkind, hheld⟩
  | list item =>
    obtain ⟨xs, rfl, hall⟩ := Schema.held_list hheld
    cases horderly with
    | list hinner =>
      exact .inr (.inl ⟨item, xs, rfl, rfl, fun x hx => ⟨hall x hx, hstorable, hinner x hx⟩⟩)
  | mapping item =>
    obtain ⟨es, rfl, -, hall⟩ := Schema.held_mapping hheld
    cases horderly with
    | mapping hinner =>
      exact .inr (.inr (.inl ⟨item, es, rfl, rfl, fun e he =>
        ⟨hall e he, hstorable, hinner e he⟩⟩))
  | optional inner => exact absurd hcore (Shape.core_ne_optional inner shape)
  | _ => exact .inr (.inr (.inr ⟨Schema.isDocument_of_held rfl hheld, rfl⟩))

/-- What is inside a mapping was read as the shape inside, and it is no entity. -/
theorem Fits.mapping {es : List (String × Value)} (h : Fits shape (.mapping es)) :
    (∀ k fields, shape.core ≠ .record k fields) ∧ ∀ e ∈ es, Fits shape.core.inside e.2 := by
  rcases h.cases (by simp) with ⟨_, _, ⟨⟩, -⟩ | ⟨_, _, ⟨⟩, -⟩ | ⟨item, _, ⟨rfl⟩, hcore, hall⟩ |
    ⟨hdocument, hsingle⟩
  · rw [hcore]
    exact ⟨by simp, hall⟩
  · obtain ⟨hany, hrecord⟩ := Shape.inside_of_isSingle hsingle
    rw [hany]
    exact ⟨hrecord, fun e he => fits_any ((Value.isDocument_mapping.1 hdocument).2 e he)⟩

/-- What is inside a list was read as the shape inside. -/
theorem Fits.list {xs : List Value} (h : Fits shape (.list xs)) :
    ∀ x ∈ xs, Fits shape.core.inside x := by
  rcases h.cases (by simp) with ⟨_, _, ⟨⟩, -⟩ | ⟨item, _, ⟨rfl⟩, hcore, hall⟩ | ⟨_, _, ⟨⟩, -⟩ |
    ⟨hdocument, hsingle⟩
  · rw [hcore]
    exact hall
  · rw [(Shape.inside_of_isSingle hsingle).1]
    exact fun x hx => fits_any (Value.isDocument_list.1 hdocument x hx)

theorem select_mapping {es : List (String × Value)} (h : ∀ k fields, shape.core ≠ .record k fields) :
    select ⟨shape, .mapping es⟩ name =
      (Table.get? name es).map fun d => ⟨shape.core.inside, d⟩ := by
  simp only [select]

theorem select_list {xs : List Value} : select ⟨shape, .list xs⟩ name =
    (xs.find? (hasId name)).map fun d => ⟨shape.core.inside, d⟩ := by
  simp only [select]

/-- A name that leads to a part of a story selects its document. -/
theorem select_dump (hv : Fits shape v) (h : child path v name = .ok s) (hs : s.isDocumented = true)
    (hw : v.read s = .ok w) :
    ∃ inner, select ⟨shape, v.dump⟩ name = some ⟨inner, w.dump⟩ ∧ Fits inner w := by
  obtain ⟨-, hdump⟩ := Value.read_dump hv.orderly hs hw
  cases v with
  | entity kind slots =>
    rcases hv.cases (by simp) with ⟨_, _, ⟨⟩, hcore, hkind, hheld⟩ | ⟨_, _, ⟨⟩, -⟩ | ⟨_, _, ⟨⟩, -⟩ |
      ⟨⟨⟩, -⟩
    exact select_entity hkind hheld hcore hv.orderly h hs hw
  | mapping es =>
    obtain ⟨hcore, hinner⟩ := hv.mapping
    simp only [child] at h
    split at h
    · cases h
      refine ⟨_, ?_, hinner _ (Table.mem_of_get? (Value.read_key.1 hw))⟩
      rw [Value.dump, select_mapping hcore, Value.read_key.1 hdump]
      rfl
    · cases h
  | list xs =>
    simp only [child] at h
    split at h
    · next i hi =>
      cases h
      have hget := Value.read_item.1 hw
      refine ⟨_, ?_, hv.list _ (List.mem_of_getElem? hget)⟩
      have hfound : xs.find? (Locate.hasId name) = some w := by
        rw [List.find?_eq_bind_findIdx?_getElem?, hi]
        exact hget
      have hsame : xs.find? (hasId name ∘ Value.dump) = xs.find? (Locate.hasId name) :=
        List.find?_congr fun x hx => hasId_dump (hv.list x hx).orderly name
      rw [Value.dump, select_list, Value.dumpItems_eq, List.find?_map, hsame, hfound]
      rfl
    · cases h
  | _ => cases h

/-- So does an accessor. -/
theorem look_dump {l : Lookup} (hv : Fits shape v) (h : find path v l = .ok s)
    (hs : s.isDocumented = true) (hw : v.read s = .ok w) :
    ∃ inner, look ⟨shape, v.dump⟩ l = some ⟨inner, w.dump⟩ ∧ Fits inner w := by
  cases l with
  | name n => exact select_dump hv h hs hw
  | inside name accessor =>
    cases accessor with
    | key k => exact select_dump hv h hs hw
    | position i =>
      simp only [find, access] at h
      split at h
      · next xs =>
        split at h
        · cases h
          obtain ⟨-, hdump⟩ := Value.read_dump hv.orderly hs hw
          refine ⟨_, ?_, hv.list _ (List.mem_of_getElem? (Value.read_item.1 hw))⟩
          have hget := Value.read_item.1 hdump
          simp only [Value.dump, look, item, hget, Option.map_some]
        · cases h
      · cases h

/-- Look-ups that lead along the document of a story select in the document what they lead to. -/
theorem looks_dump {ls : List Lookup} {steps : List Step} (h : Leads path v ls steps) :
    ∀ {shape : Shape}, Fits shape v → (∀ s ∈ steps, s.isDocumented = true) →
      ∃ inner w, v.follow steps = .ok w ∧ ls.foldlM look ⟨shape, v.dump⟩ = some ⟨inner, w.dump⟩ := by
  induction h with
  | last h =>
    intro shape hv hd
    have hs := hd _ List.mem_cons_self
    obtain ⟨w, hw⟩ := find_read (holdsFields_of_orderly hv.orderly) (Step.isHeld_of_isDocumented hs) h
    obtain ⟨inner, hlook, -⟩ := look_dump hv h hs hw
    exact ⟨inner, w, Value.follow_cons.2 ⟨w, hw, rfl⟩, by simp [hlook]⟩
  | next h hw hrest ih =>
    intro shape hv hd
    rw [List.forall_mem_cons] at hd
    obtain ⟨inner, hlook, hinner⟩ := look_dump hv h hd.1 hw
    obtain ⟨last, x, hx, hwalk⟩ := ih hinner hd.2
    exact ⟨last, x, Value.follow_cons.2 ⟨_, hw, hx⟩, by simp [hlook, hwalk]⟩

end Excerpt

/-- What a path leads to in the document of a story. -/
def Value.at? (document : Value) (path : String) : Option Value :=
  match Segment.split path.toList with
  | [] => none
  | root :: parts =>
    match Segment.parseAll path parts with
    | .ok segments => (Excerpt.walk ⟨Kind.worldState.shape, document⟩
        (⟨String.ofList root, none⟩ :: segments)).map Excerpt.document
    | .error _ => none

theorem Story.child_root (story : Story) (path : String) (root : Root) :
    Locate.child path story.toEntity root.name = .ok (.slot (.field root.name)) := by
  cases root <;> rfl

/-- In a story that was read, a path along the document leads to the same in the document: what it
reads is there, and its document is what the path selects in the document of the story. -/
theorem Story.readPath_dump {document : Value} {story : Story} {path : String} {place : Place}
    (hd : document.isDocument = true) (h : read document = .ok story)
    (hplace : Place.resolve story path = .ok place) (hdocumented : place.isDocumented = true) :
    ∃ v, story.readPath path = .ok v ∧ story.dump.at? path = some v.dump := by
  obtain ⟨parts, segments, hsplit, hparse, hlocate⟩ := Place.resolve_ok.1 hplace
  obtain ⟨hsegments, hleads⟩ := Locate.locate_ok.1 hlocate
  have horderly := orderly_of_read hd h
  have hheld := held_of_read hd h
  obtain ⟨inner, hroot, hfits⟩ : ∃ inner,
      Excerpt.select ⟨Kind.worldState.shape, story.toEntity.dump⟩ place.root.name =
        some ⟨inner, (story.root place.root).dump⟩ ∧ Excerpt.Fits inner (story.root place.root) :=
    Excerpt.select_entity rfl hheld rfl horderly (child_root story path place.root) rfl
      (story.read_root place.root)
  obtain ⟨last, v, hv, hwalk⟩ :=
    Excerpt.looks_dump hleads hfits (Place.isDocumented_iff.1 hdocumented)
  refine ⟨v, ?_, ?_⟩
  · rw [readPath, hplace, Outcome.ok_bind, Place.read_eq]
    exact hv
  · simp only [Value.at?, hsplit, hparse, Excerpt.walk, List.flatMap_cons, Locate.lookups,
      String.ofList_toList, List.cons_append, List.nil_append, List.foldlM_cons, Excerpt.look, dump]
    rw [hroot]
    simp [hwalk]

/-- The document of a story with a tie that has an extra field under the name of its computed
key. -/
def keyedDocument : Value :=
  .mapping [("relationships", .list [.mapping [("id", .text "r"), ("from", .text "a"),
    ("to", .text "b"), ("key", .text "K")]])]

theorem Value.eq_text_of_equal {v : Value} {s : String} (h : v.equal (.text s) = true) :
    v = .text s := by
  cases v <;> simp_all [equal]

/-- One end of the tie, under its name inside. -/
theorem Story.readPath_dump_end : ∃ story v, read keyedDocument = .ok story ∧
    story.readPath "relationships.r.from_" = .ok v ∧
    story.dump.at? "relationships.r.from_" = some v.dump := by
  obtain ⟨story, hread, hplace⟩ := exists_read keyedDocument (fun story =>
    Place.resolve story "relationships.r.from_" =
      .ok ⟨.relationships, [.item 0], .slot (.field "from_")⟩) (by decide +kernel)
  obtain ⟨v, hv, hdump⟩ := readPath_dump (by decide +kernel) hread hplace rfl
  exact ⟨story, v, hread, hv, hdump⟩

/-- The extra field is in the document, but what the path reads is the key. -/
theorem Story.readPath_dump_key : ∃ story place, read keyedDocument = .ok story ∧
    Place.resolve story "relationships.r.key" = .ok place ∧
    story.readPath "relationships.r.key" = .ok (.text "a->b") ∧
    story.dump.at? "relationships.r.key" = some (.text "K") := by
  obtain ⟨story, hread, hplace, hkey, hextra⟩ := exists_read keyedDocument (fun story =>
    Place.resolve story "relationships.r.key" =
        .ok ⟨.relationships, [.item 0], .computed "key"⟩ ∧
      (story.readPath "relationships.r.key").toOption.map
        (fun v => decide (v.equal (.text "a->b") = true)) = some true ∧
      (story.dump.at? "relationships.r.key").map (·.equal (.text "K")) = some true)
    (by decide +kernel)
  obtain ⟨v, hv, hequal⟩ := Outcome.exists_decided _ _ hkey
  obtain ⟨d, hd, hequal'⟩ := Option.map_eq_some_iff.1 hextra
  obtain rfl := Value.eq_text_of_equal hequal
  obtain rfl := Value.eq_text_of_equal hequal'
  exact ⟨story, _, hread, hplace, hv, hd⟩

end StoryWorld
