import StoryWorld.Proofs.Conservation
import StoryWorld.Proofs.Faithful
import StoryWorld.Proofs.TidyAlong

/-!
What the saved text of a story tells.

What a tidy story is stored as has each key once, whatever deltas put into it, so it is a document
if it can be written at all. The texts of two documents are the same just if the documents differ in
the order of their keys only, once each float that is no number is taken as nothing: this is what it
is written as. So the text, and with it the fingerprint, tells every change that a delta makes but
one: that of a float that is no number to another such, or to nothing.
-/

namespace StoryWorld

namespace Value

/-- A value that is a document if it can be written: what stands in the way is at most something
that is built in. -/
def Clear (v : Value) : Prop := ∀ depth, Json.writable depth v = true → v.isDocument = true

variable {v : Value} {kind : Kind} {slots : List (Slot × Value)}

theorem clear_of_isDocument (h : v.isDocument = true) : v.Clear := fun _ _ => h

theorem clear_list {xs : List Value} (h : ∀ x ∈ xs, x.Clear) : (list xs).Clear := by
  intro depth hw
  obtain ⟨d, -, hxs⟩ := Json.writable_list.1 hw
  exact isDocument_list.2 fun x hx => h x hx d (hxs x hx)

theorem clear_mapping {es : List (String × Value)} (hkeys : (Table.keys es).Nodup)
    (h : ∀ e ∈ es, e.2.Clear) : (mapping es).Clear := by
  intro depth hw
  obtain ⟨d, -, hes⟩ := Json.writable_mapping.1 hw
  exact isDocument_mapping.2 ⟨hkeys, fun e he => h e he d (hes e he)⟩

/-- Documents that differ in the order of keys only hold the same numbers. -/
theorem Rearranged.mem_numbers {w : Value} {n : Number} (hv : v.isDocument = true)
    (h : v.Rearranged w) : n ∈ v.numbers ↔ n ∈ w.numbers := by
  rw [← mem_numbers_sorted, h.sorted_eq hv, mem_numbers_sorted]

/-! ### The document of a tidy value -/

/-- No two slots of an entity that are part of its document have one key there. -/
theorem documentKey_inj {s t : Slot} (hs : s.Suits kind) (ht : t.Suits kind)
    (hs' : s.isDocumented = true) (ht' : t.isDocumented = true)
    (h : s.documentKey kind = t.documentKey kind) : s = t := by
  have hfresh : ∀ {a b}, (Slot.field a).Suits kind → (Slot.extra b).Suits kind →
      kind.external a ≠ b := by
    rintro a b ⟨f, hf, rfl⟩ hb
    rw [Kind.external_eq hf]
    exact hb f hf
  cases s with
  | attached a => cases hs'
  | given => cases hs'
  | field a =>
    cases t with
    | attached b => cases ht'
    | given => cases ht'
    | extra b => exact absurd h (hfresh hs ht)
    | field b =>
      obtain ⟨f, hf, rfl⟩ := hs
      obtain ⟨g, hg, rfl⟩ := ht
      have hexternal : f.1.external = g.1.external := by
        rw [← Kind.external_eq hf, ← Kind.external_eq hg]
        exact h
      rw [List.inj_on_of_nodup_map (Schema.nodup_externals kind) hf hg hexternal]
  | extra a =>
    cases t with
    | attached b => cases ht'
    | given => cases ht'
    | field b => exact absurd h.symm (hfresh ht hs)
    | extra b => exact congrArg Slot.extra h

theorem nodup_dumpSlots (h : SlotsApart kind slots) :
    (Table.keys (dumpSlots kind slots)).Nodup := by
  have hdocumented := h.filter Assign.documented
  have hpart : ∀ n ∈ Table.keys (slots.filter Assign.documented), n.isDocumented = true :=
    fun n hmem => (SlotsFit.mem_keys_documented.1 hmem).2
  have hkeys : Table.keys (dumpSlots kind slots) =
      (Table.keys (slots.filter Assign.documented)).map (Slot.documentKey kind) := by
    rw [← dumpSlots_documented, dumpSlots_eq hpart, Table.keys, Table.keys, List.map_map,
      List.map_map]
    rfl
  rw [hkeys]
  refine hdocumented.unique.map_on fun s hs t ht => ?_
  exact documentKey_inj (hdocumented.suits s hs) (hdocumented.suits t ht) (hpart s hs) (hpart t ht)

theorem mem_dumpSlots {e : String × Value} : ∀ {slots : List (Slot × Value)},
    e ∈ dumpSlots kind slots → ∃ entry ∈ slots, e.2 = entry.2.dump
  | (.field _, x) :: rest, h => by
    rcases List.mem_cons.1 h with rfl | h
    · exact ⟨_, List.mem_cons_self, rfl⟩
    · obtain ⟨entry, hmem, heq⟩ := mem_dumpSlots h
      exact ⟨entry, List.mem_cons_of_mem _ hmem, heq⟩
  | (.extra _, x) :: rest, h => by
    rcases List.mem_cons.1 h with rfl | h
    · exact ⟨_, List.mem_cons_self, rfl⟩
    · obtain ⟨entry, hmem, heq⟩ := mem_dumpSlots h
      exact ⟨entry, List.mem_cons_of_mem _ hmem, heq⟩
  | (.attached _, _) :: rest, h | (.given, _) :: rest, h => by
    obtain ⟨entry, hmem, heq⟩ : ∃ entry ∈ rest, e.2 = entry.2.dump := mem_dumpSlots h
    exact ⟨entry, List.mem_cons_of_mem _ hmem, heq⟩

theorem Tidy.clear_dump (h : v.Tidy) : v.dump.Clear := by
  induction h with
  | list _ ih =>
    rw [dump, dumpItems_eq]
    exact clear_list (List.forall_mem_map.2 ih)
  | mapping hkeys _ ih =>
    rw [dump, dumpEntries_eq]
    exact clear_mapping (by rwa [Table.keys_mapValues]) (List.forall_mem_map.2 ih)
  | entity _ hslots _ ih =>
    refine clear_mapping (nodup_dumpSlots hslots) fun e he => ?_
    obtain ⟨entry, hmem, heq⟩ := mem_dumpSlots he
    exact heq ▸ ih entry hmem
  | builtin b =>
    intro depth hw
    cases hw
  | _ => exact clear_of_isDocument rfl

end Value

/-! ### What a tidy value is stored as -/

namespace Schema

open Value

variable {room : Nat} {v w : Value} {kind : Kind} {slots : List (Slot × Value)}

theorem clear_storedFreely (h : v.Tidy) (hw : storedFreely room v = .ok w) : w.Clear := by
  unfold storedFreely at hw
  split at hw
  · cases hw
  · obtain rfl := Except.ok.inj hw
    exact h.clear_dump

theorem clear_storedWhole (h : v.Tidy) (hw : storedWhole room v = .ok w) : w.Clear := by
  cases v with
  | bool b =>
    obtain rfl := Except.ok.inj hw
    exact clear_of_isDocument rfl
  | _ => exact clear_storedFreely h hw

theorem clear_storedReal (h : v.Tidy) (hw : storedReal room v = .ok w) : w.Clear := by
  unfold storedReal at hw
  split at hw
  · obtain rfl := Except.ok.inj hw
    exact clear_of_isDocument rfl
  · obtain ⟨x, -, rfl⟩ := Outcome.map_ok.1 hw
    exact clear_of_isDocument rfl
  · exact clear_storedFreely h hw

/-- The declared fields that an entity still has are stored under their names in documents. -/
theorem keys_storedFields : ∀ {fields : Fields} {es : List (String × Value)},
    storedFields room fields slots = .ok es →
      (Table.keys es).Sublist (fields.map fun f => f.1.external)
  | [], _, h => by
    obtain rfl := Except.ok.inj h
    exact .slnil
  | (f, shape) :: rest, es, h => by
    unfold storedFields at h
    split at h
    · obtain ⟨v, -, h⟩ := Outcome.bind_ok.1 h
      obtain ⟨vs, hvs, h⟩ := Outcome.bind_ok.1 h
      obtain rfl := Outcome.pure_ok.1 h
      exact (keys_storedFields hvs).cons_cons _
    · exact (keys_storedFields h).cons _

/-- What an entity is stored as has each key once. -/
theorem clear_entity (h : (Value.entity kind slots).Tidy)
    (hfields : ∀ es, storedFields (levelsUnder room kind) kind.fields slots = .ok es →
      ∀ e ∈ es, e.2.Clear)
    (hw : storedIn room kind.shape (.entity kind slots) = .ok w) : w.Clear := by
  obtain ⟨-, hslots, hvalues⟩ := tidy_entity.1 h
  rw [Kind.shape, storedIn] at hw
  simp only [if_true] at hw
  obtain ⟨es, hes, hw⟩ := Outcome.bind_ok.1 hw
  obtain ⟨fs, hfs, hw⟩ := Outcome.bind_ok.1 hw
  obtain rfl := Outcome.pure_ok.1 hw
  obtain ⟨hall, hmap⟩ := storedEntries_ok.1 hfs
  have hkeys : Table.keys fs = Table.keys (extras slots) := by
    rw [hmap, Table.keys, Table.keys, List.map_map]
    rfl
  refine clear_mapping ?_ fun e he => ?_
  · rw [Table.keys, List.map_append, List.nodup_append]
    refine ⟨(nodup_externals kind).sublist (keys_storedFields hes), ?_, ?_⟩
    · show (Table.keys fs).Nodup
      rw [hkeys]
      exact hslots.nodup_extras
    · rintro k hk _ hk' rfl
      obtain ⟨f, hf, rfl⟩ := List.mem_map.1 ((keys_storedFields hes).subset hk)
      have hextra : f.1.external ∈ Table.keys (extras slots) := hkeys ▸ hk'
      obtain ⟨⟨name, x⟩, hmem, heq⟩ := List.mem_map.1 hextra
      exact hslots.suits _ (List.mem_map.2 ⟨_, mem_extras.1 hmem, rfl⟩) f hf heq.symm
  · rcases List.mem_append.1 he with he | he
    · exact hfields es hes e he
    · rw [hmap] at he
      obtain ⟨entry, hentry, rfl⟩ := List.mem_map.1 he
      exact clear_storedFreely (hvalues _ (mem_extras.1 hentry))
        (Outcome.eq_ok_gotten (hall entry hentry))

mutual

/-- What a tidy value is stored as in a field of a story is a document if it can be written. -/
theorem clear_storedIn : ∀ shape, Storable shape → ∀ {room v w}, v.Tidy →
    storedIn room shape v = .ok w → w.Clear
  | .any, _, _, _, _, h, hw | .text, _, _, _, _, h, hw | .truth, _, _, _, _, h, hw
  | .choice _, _, _, _, _, h, hw => clear_storedFreely h hw
  | .whole, _, _, _, _, h, hw | .number, _, _, _, _, h, hw => clear_storedWhole h hw
  | .real, _, _, _, _, h, hw => clear_storedReal h hw
  | .list item, hs, room, v, w, h, hw => by
    cases v with
    | list xs =>
      obtain ⟨hall, rfl⟩ := storedIn_list_ok.1 hw
      refine clear_list (List.forall_mem_map.2 fun x hx => ?_)
      exact clear_storedIn item hs (tidy_list.1 h x hx) (eq_kept (hall x hx))
    | _ => exact clear_storedFreely h hw
  | .mapping item, hs, room, v, w, h, hw => by
    cases v with
    | mapping es =>
      obtain ⟨hkeys, hes⟩ := tidy_mapping.1 h
      obtain ⟨hall, rfl⟩ := storedIn_mapping_ok.1 hw
      refine clear_mapping (by rwa [Table.keys_mapValues])
        (List.forall_mem_map.2 fun e he => ?_)
      exact clear_storedIn item hs (hes e he) (eq_kept (hall e he))
    | _ => exact clear_storedFreely h hw
  | .optional inner, hs, room, v, w, h, hw => by
    by_cases hv : v = .null
    · subst hv
      obtain rfl := Except.ok.inj hw
      exact clear_of_isDocument rfl
    · rw [storedIn_optional hv] at hw
      exact clear_storedIn inner hs h hw
  | .record kind fields, ⟨hkind, _, heq⟩, room, v, w, h, hw => by
    have hfields := @clear_storedFields fields (heq ▸ storableFields_kind hkind)
    subst heq
    cases v with
    | entity k slots =>
      by_cases hk : k = kind
      · subst hk
        exact clear_entity h (fun es => hfields (tidy_entity.1 h).2.2) hw
      · simp only [storedIn, if_neg hk] at hw
        exact clear_storedFreely h hw
    | _ => exact clear_storedFreely h hw

theorem clear_storedFields : ∀ fields, StorableFields fields → ∀ {room slots es},
    (∀ e ∈ slots, e.2.Tidy) → storedFields room fields slots = .ok es → ∀ e ∈ es, e.2.Clear
  | [], _, _, _, _, _, hes => by
    obtain rfl := Except.ok.inj hes
    simp
  | (f, shape) :: rest, hs, room, slots, es, h, hes => by
    rw [StorableFields, List.forall_mem_cons] at hs
    unfold storedFields at hes
    split at hes
    · rename_i x hx
      obtain ⟨v, hv, hes⟩ := Outcome.bind_ok.1 hes
      obtain ⟨vs, hvs, hes⟩ := Outcome.bind_ok.1 hes
      obtain rfl := Outcome.pure_ok.1 hes
      rw [List.forall_mem_cons]
      exact ⟨clear_storedIn shape hs.1.2 (h _ (Table.mem_of_get? hx)) hv,
        clear_storedFields rest hs.2 h hvs⟩
    · exact clear_storedFields rest hs.2 h hes

end

end Schema

/-! ### The texts of two stories -/

namespace Json

/-- Two documents that can be written are written alike just if they differ in the order of their
keys only, with nothing in the place of each float that is no number. -/
theorem canonical?_eq_iff {v w : Value} {s t : List Char} (hv : v.isDocument = true)
    (hw : w.isDocument = true) (hs : canonical? v = some s) (ht : canonical? w = some t) :
    s = t ↔ v.asWritten.Rearranged w.asWritten := by
  rw [Value.rearranged_iff (Value.isDocument_asWritten hv) (Value.isDocument_asWritten hw)]
  constructor
  · rintro rfl
    have hread := read?_of_canonical? hv hs
    rw [read?_of_canonical? hw ht] at hread
    exact (Option.some.inj hread).symm
  · intro hsame
    rw [canonical?, ← write?_asWritten, ← write?_sorted] at hs ht
    rw [hsame, ht] at hs
    exact (Option.some.inj hs).symm

end Json

namespace Story

/-- What a tidy story is stored as is a document, if it can be written. -/
theorem isDocument_stored {story : Story} {saved : Value} {text : List Char}
    (h : story.toEntity.Tidy)
    (hsaved : Schema.stored Kind.worldState.shape story.toEntity = .ok saved)
    (htext : Json.canonical? saved = some text) : saved.isDocument = true := by
  refine Schema.clear_entity h (fun es hes => ?_) hsaved Json.writeDepth ?_
  · exact Schema.clear_storedFields _ (@Schema.storableFields_kind .worldState rfl)
      (Value.tidy_entity.1 h).2.2 hes
  · rw [Json.writable, ← Json.canonical?, htext]
    rfl

/-- The texts of two tidy stories are the same just if what the stories are stored as is the same,
up to the order of keys and to floats that are no numbers. -/
theorem save_eq_iff {story other : Story} {s t : List Char} (h : story.toEntity.Tidy)
    (h' : other.toEntity.Tidy) (hs : story.save = .ok s) (ht : other.save = .ok t) :
    ∃ d e, Schema.stored Kind.worldState.shape story.toEntity = .ok d ∧
      Schema.stored Kind.worldState.shape other.toEntity = .ok e ∧
      d.isDocument = true ∧ e.isDocument = true ∧ (s = t ↔ d.asWritten.Rearranged e.asWritten) := by
  obtain ⟨d, hd, hdtext⟩ := save_ok.1 hs
  obtain ⟨e, he, hetext⟩ := save_ok.1 ht
  have hdoc := isDocument_stored h hd hdtext
  have hdoc' := isDocument_stored h' he hetext
  exact ⟨d, e, hd, he, hdoc, hdoc', Json.canonical?_eq_iff hdoc hdoc' hdtext hetext⟩

/-- Of a story that was read, and a delta of a document: if the story can be saved before and after
the delta, whatever came of it, the two texts are the same just if what it is stored as before and
after differs in no more than the order of keys, with nothing in the place of each float that is no
number. If all numbers can be stored, it is just the order of keys. -/
theorem save_tells_change {document : Value} {story : Story} {delta : Delta} {tag : Tag}
    {before after : List Char} (hd : document.isDocument = true) (hread : read document = .ok story)
    (hv : delta.value.isDocument = true) (hbefore : story.save = .ok before)
    (hafter : (Delta.apply story delta tag).story.save = .ok after) :
    ∃ d e, Schema.stored Kind.worldState.shape story.toEntity = .ok d ∧
      Schema.stored Kind.worldState.shape (Delta.apply story delta tag).story.toEntity = .ok e ∧
      (before = after ↔ d.asWritten.Rearranged e.asWritten) ∧
      ((∀ n ∈ d.numbers ++ e.numbers, n.isStorable = true) →
        (before = after ↔ d.Rearranged e)) := by
  have htidy := tidy_of_read hd hread
  have htidy' : (Delta.apply story delta tag).story.toEntity.Tidy := by
    rw [Delta.apply_story]
    exact Delta.tidy_perform htidy (sound_of_read hread) hv
  obtain ⟨d, e, hsaved, hsaved', hdoc, hdoc', hiff⟩ := save_eq_iff htidy htidy' hbefore hafter
  refine ⟨d, e, hsaved, hsaved', hiff, fun hn => ?_⟩
  rw [List.forall_mem_append] at hn
  rwa [Value.asWritten_eq hdoc hn.1, Value.asWritten_eq hdoc' hn.2] at hiff

/-- The document of a story with a tension. -/
def tautDocument (tension : Number) : Value :=
  .mapping [("world", .mapping [("global", .mapping [("tension", .number tension)])])]

/-- A delta that gives the tension the other sign. -/
def recoil : Delta := ⟨.multiply, "world.global.tension", .int (-1), none, none, none, none⟩

/-- That a tension of 1 has changed its sign shows: the text is another one. -/
theorem save_tells_change_taut : ∃ story before after d e,
    read (tautDocument (.int 1)) = .ok story ∧
    story.save = .ok before ∧ (Delta.apply story recoil ⟨none, none⟩).story.save = .ok after ∧
    Schema.stored Kind.worldState.shape story.toEntity = .ok d ∧
    Schema.stored Kind.worldState.shape (Delta.apply story recoil ⟨none, none⟩).story.toEntity =
      .ok e ∧ ¬ d.Rearranged e ∧ before ≠ after := by
  obtain ⟨story, d, e, hread, hd, he, ⟨hdoc, hdoc'⟩, hn, ⟨hdepth, hdepth'⟩, hmem, hnot⟩ :
      ∃ story d e, read (tautDocument (.int 1)) = .ok story ∧
        Schema.stored Kind.worldState.shape story.toEntity = .ok d ∧
        Schema.stored Kind.worldState.shape (Delta.apply story recoil ⟨none, none⟩).story.toEntity =
          .ok e ∧ (d.isDocument = true ∧ e.isDocument = true) ∧
        (∀ n ∈ d.numbers ++ e.numbers, n.isStorable = true) ∧
        (d.nesting ≤ Json.writeDepth ∧ e.nesting ≤ Json.writeDepth) ∧
        Number.int 1 ∈ d.numbers ∧ Number.int 1 ∉ e.numbers := by
    refine ⟨_, _, _, rfl, rfl, rfl, ?_⟩
    decide +kernel
  have hstorable := List.forall_mem_append.1 hn
  obtain ⟨before, hbefore⟩ := Option.isSome_iff_exists.1
    ((Json.writable_iff hdoc hstorable.1).2 hdepth)
  obtain ⟨after, hafter⟩ := Option.isSome_iff_exists.1
    ((Json.writable_iff hdoc' hstorable.2).2 hdepth')
  have hsave := save_ok.2 ⟨d, hd, hbefore⟩
  have hsave' := save_ok.2 ⟨e, he, hafter⟩
  obtain ⟨d', e', hd', he', -, hiff⟩ :=
    save_tells_change (by decide +kernel) hread rfl hsave hsave'
  obtain rfl := Except.ok.inj (hd.symm.trans hd')
  obtain rfl := Except.ok.inj (he.symm.trans he')
  have hdiffer : ¬ d.Rearranged e := fun h => hnot ((h.mem_numbers hdoc).1 hmem)
  exact ⟨story, before, after, d, e, hread, hsave, hsave', hd, he, hdiffer,
    fun hsame => hdiffer ((hiff hn).1 hsame)⟩

/-- A story whose tension has no bound is saved as the same text after the tension has changed its
sign, though it is stored as another document. -/
theorem recoil_undetected : ∃ story text d e,
    read (tautDocument (.float (1.0 / 0.0))) = .ok story ∧
    story.save = .ok text ∧ (Delta.apply story recoil ⟨none, none⟩).story.save = .ok text ∧
    Schema.stored Kind.worldState.shape story.toEntity = .ok d ∧
    Schema.stored Kind.worldState.shape (Delta.apply story recoil ⟨none, none⟩).story.toEntity =
      .ok e ∧ ¬ d.Rearranged e := by
  obtain ⟨story, d, e, hread, hd, he, hsame, hdoc, ⟨hn, hdepth⟩, hmem, hnot⟩ :
      ∃ story d e, read (tautDocument (.float (1.0 / 0.0))) = .ok story ∧
        Schema.stored Kind.worldState.shape story.toEntity = .ok d ∧
        Schema.stored Kind.worldState.shape (Delta.apply story recoil ⟨none, none⟩).story.toEntity =
          .ok e ∧ d.asWritten = e.asWritten ∧ d.isDocument = true ∧
        ((∀ n ∈ d.asWritten.numbers, n.isStorable = true) ∧
          d.asWritten.nesting ≤ Json.writeDepth) ∧
        Number.float (1.0 / 0.0) ∈ d.numbers ∧ Number.float (1.0 / 0.0) ∉ e.numbers := by
    refine ⟨_, _, _, rfl, rfl, rfl, rfl, ?_⟩
    decide +kernel
  obtain ⟨text, htext⟩ := Option.isSome_iff_exists.1
    ((Json.writable_iff (Value.isDocument_asWritten hdoc) hn).2 hdepth)
  have hbefore : Json.canonical? d = some text := by rwa [Json.canonical?, ← Json.write?_asWritten]
  have hafter : Json.canonical? e = some text := by
    rwa [Json.canonical?, ← Json.write?_asWritten, ← hsame]
  exact ⟨story, text, d, e, hread, save_ok.2 ⟨d, hd, hbefore⟩, save_ok.2 ⟨e, he, hafter⟩, hd, he,
    fun h => hnot ((h.mem_numbers hdoc).1 hmem)⟩

end Story

end StoryWorld
