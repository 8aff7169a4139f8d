import StoryWorld.Proofs.Intact
import StoryWorld.Proofs.Stored
import StoryWorld.Proofs.Upheld

/-!
Values that have each key once.

No mapping in a story has a key twice and no entity a slot twice. The fields of an entity are
declared ones, no extra field goes by the name that a declared one has in documents, and nothing is
attached under the name of one, for a declared field comes before all else that a path can name. So
no two things in an entity come under one key of its document. A delta of a document keeps that,
whatever comes of it and whichever way its path goes: through what an entity computes, through what
is built into it, or past its guards to all that it holds.
-/

namespace StoryWorld

/-! ### The slots of an entity -/

/-- A name that no declared field of a kind goes by, neither inside nor in documents. -/
def Kind.Free (kind : Kind) (name : String) : Prop :=
  ∀ f ∈ kind.fields, f.1.name ≠ name ∧ f.1.external ≠ name

/-- A slot that an entity of a kind can have. -/
def Slot.Suits (kind : Kind) : Slot → Prop
  | field name => ∃ f ∈ kind.fields, f.1.name = name
  | extra name => ∀ f ∈ kind.fields, f.1.external ≠ name
  | attached name => ∀ f ∈ kind.fields, f.1.name ≠ name
  | given => True

theorem Kind.Free.extra {kind : Kind} {name : String} (h : kind.Free name) :
    (Slot.extra name).Suits kind := fun f hf => (h f hf).2

theorem Kind.Free.attached {kind : Kind} {name : String} (h : kind.Free name) :
    (Slot.attached name).Suits kind := fun f hf => (h f hf).1

theorem Kind.suits_of_field? {kind : Kind} {name : String} {f : Field × Shape}
    (h : kind.field? name = some f) : (Slot.field name).Suits kind :=
  ⟨f, List.mem_of_find?_eq_some h, by simpa using List.find?_some h⟩

/-- The slot of an entity for a name of its own suits it. -/
theorem Assign.suits_ownSlot (kind : Kind) (name : String) : (ownSlot kind name).Suits kind := by
  unfold ownSlot
  split
  · obtain ⟨f, hf⟩ := Option.isSome_iff_exists.1 ‹_›
    exact Kind.suits_of_field? hf
  · rename_i h
    rintro f hf rfl
    refine h ?_
    rw [Kind.field?, List.find?_isSome]
    exact ⟨f, hf, by simp⟩

theorem Assign.ownSlot_injective (kind : Kind) : Function.Injective (ownSlot kind) := by
  intro a b h
  unfold ownSlot at h
  split at h <;> split at h
  · exact Slot.field.inj h
  · cases h
  · cases h
  · exact Slot.attached.inj h

namespace Value

/-- What an entity holds beside its extra fields is declared or attached. -/
theorem mem_keys_own {name : String} : ∀ {slots : List (Slot × Value)},
    name ∈ Table.keys (own slots) →
      .field name ∈ Table.keys slots ∨ .attached name ∈ Table.keys slots
  | (.extra _, _) :: rest, h => by
    have hrest : .field name ∈ Table.keys rest ∨ .attached name ∈ Table.keys rest :=
      mem_keys_own h
    exact hrest.imp (List.mem_cons_of_mem _) (List.mem_cons_of_mem _)
  | (.given, _) :: rest, h => by
    have hrest : .field name ∈ Table.keys rest ∨ .attached name ∈ Table.keys rest :=
      mem_keys_own h
    exact hrest.imp (List.mem_cons_of_mem _) (List.mem_cons_of_mem _)
  | (.field _, _) :: rest, h => by
    rcases List.mem_cons.1 h with rfl | h
    · exact .inl List.mem_cons_self
    · exact (mem_keys_own h).imp (List.mem_cons_of_mem _) (List.mem_cons_of_mem _)
  | (.attached _, _) :: rest, h => by
    rcases List.mem_cons.1 h with rfl | h
    · exact .inr List.mem_cons_self
    · exact (mem_keys_own h).imp (List.mem_cons_of_mem _) (List.mem_cons_of_mem _)

theorem keys_refill (picked : Slot → Bool) : ∀ (slots : List (Slot × Value))
    (es : List (String × Value)), Table.keys (refill picked slots es) = Table.keys slots
  | [], _ => by rw [refill]
  | _ :: _, [] => by rw [refill]; simp
  | (s, v) :: rest, e :: es => by
    rw [refill]
    split
    · exact congrArg (s :: ·) (keys_refill picked rest es)
    · exact congrArg (s :: ·) (keys_refill picked rest (e :: es))

end Value

/-- Slots that differ and that an entity of the kind can have. -/
structure SlotsApart (kind : Kind) (slots : List (Slot × Value)) : Prop where
  unique : (Table.keys slots).Nodup
  suits : ∀ s ∈ Table.keys slots, s.Suits kind

namespace SlotsApart

variable {kind : Kind} {slots : List (Slot × Value)} {slot : Slot}

theorem put (h : SlotsApart kind slots) (hslot : slot.Suits kind) (v : Value) :
    SlotsApart kind (Table.put slot v slots) where
  unique := Table.nodup_keys_put h.unique
  suits s hs := by
    rcases Table.mem_keys_put.1 hs with rfl | hs
    · exact hslot
    · exact h.suits s hs

theorem filter (h : SlotsApart kind slots) (p : Slot × Value → Bool) :
    SlotsApart kind (slots.filter p) where
  unique := Table.nodup_keys_filter h.unique p
  suits s hs := h.suits s ((List.filter_sublist.map Prod.fst).subset hs)

theorem of_keys {slots' : List (Slot × Value)} (h : SlotsApart kind slots)
    (hkeys : Table.keys slots' = Table.keys slots) : SlotsApart kind slots' :=
  ⟨hkeys ▸ h.unique, hkeys ▸ h.suits⟩

theorem nodup_extras (h : SlotsApart kind slots) : (Table.keys (Value.extras slots)).Nodup :=
  (h.unique.sublist (Value.sublist_keys_extras slots)).of_map _

/-- The names of what an entity holds beside its extra fields differ. -/
theorem nodup_own (h : SlotsApart kind slots) : (Table.keys (Value.own slots)).Nodup := by
  obtain ⟨hunique, hsuits⟩ := h
  induction slots with
  | nil => exact List.nodup_nil
  | cons e rest ih =>
    obtain ⟨slot, v⟩ := e
    rw [Table.keys, List.map_cons, List.nodup_cons] at hunique
    rw [Table.keys, List.map_cons, List.forall_mem_cons] at hsuits
    have hrest := ih hunique.2 hsuits.2
    cases slot with
    | extra name => exact hrest
    | given => exact hrest
    | field name =>
      refine List.nodup_cons.2 ⟨fun hname => ?_, hrest⟩
      rcases Value.mem_keys_own hname with hfield | hattached
      · exact hunique.1 hfield
      · obtain ⟨f, hf, heq⟩ := hsuits.1
        exact hsuits.2 _ hattached f hf heq
    | attached name =>
      refine List.nodup_cons.2 ⟨fun hname => ?_, hrest⟩
      rcases Value.mem_keys_own hname with hfield | hattached
      · obtain ⟨f, hf, heq⟩ := hsuits.2 _ hfield
        exact hsuits.1 f hf heq
      · exact hunique.1 hattached

end SlotsApart

/-- The slots of an entity that was read are apart. -/
theorem OrderlyKeys.apart {kind : Kind} {slots : List (Slot × Value)}
    (h : OrderlyKeys kind (Table.keys slots)) : SlotsApart kind slots where
  unique := h.nodup.of_map
  suits s hs := by
    obtain ⟨extra, hkeys, -, hfresh⟩ := h
    rw [hkeys] at hs
    rcases List.mem_append.1 hs with hs | hs
    · obtain ⟨f, hf, rfl⟩ := List.mem_map.1 hs
      exact ⟨f, hf, rfl⟩
    · obtain ⟨name, hname, rfl⟩ := List.mem_map.1 hs
      exact fun f hf heq => hfresh f hf (heq ▸ hname)

/-! ### Tidy values -/

namespace Value

/-- A value whose mappings have each key once and whose entities have slots apart. -/
inductive Tidy : Value → Prop
  | null : Tidy null
  | bool (b : Bool) : Tidy (bool b)
  | number (n : Number) : Tidy (number n)
  | text (s : String) : Tidy (text s)
  | builtin (b : Builtin) : Tidy (builtin b)
  | list {xs : List Value} (h : ∀ x ∈ xs, Tidy x) : Tidy (list xs)
  | mapping {es : List (String × Value)} (hkeys : (Table.keys es).Nodup) (h : ∀ e ∈ es, Tidy e.2) :
    Tidy (mapping es)
  | entity {kind : Kind} {slots : List (Slot × Value)} (hkind : kind.inStory = true)
    (hslots : SlotsApart kind slots) (h : ∀ e ∈ slots, Tidy e.2) : Tidy (entity kind slots)

variable {v w x old : Value} {s : Step} {steps : List Step} {kind : Kind}
  {slots : List (Slot × Value)} {name : String}

theorem tidy_of_isDocument (v : Value) (h : v.isDocument = true) : v.Tidy := by
  induction v, h using document_induct with
  | null => exact .null
  | bool b => exact .bool b
  | number n => exact .number n
  | text s => exact .text s
  | list xs _ ih => exact .list ih
  | mapping es hkeys _ ih => exact .mapping hkeys ih

theorem tidy_list {xs : List Value} : (list xs).Tidy ↔ ∀ x ∈ xs, x.Tidy :=
  ⟨fun h => by cases h with | list h => exact h, .list⟩

theorem tidy_mapping {es : List (String × Value)} :
    (mapping es).Tidy ↔ (Table.keys es).Nodup ∧ ∀ e ∈ es, e.2.Tidy :=
  ⟨fun h => by cases h with | mapping hkeys h => exact ⟨hkeys, h⟩, fun h => .mapping h.1 h.2⟩

theorem tidy_entity : (entity kind slots).Tidy ↔
    kind.inStory = true ∧ SlotsApart kind slots ∧ ∀ e ∈ slots, e.2.Tidy :=
  ⟨fun h => by cases h with | entity hkind hslots h => exact ⟨hkind, hslots, h⟩,
    fun h => .entity h.1 h.2.1 h.2.2⟩

/-! ### What is read of a tidy value -/

namespace Tidy

/-- A slot that an entity has is one that it can have. -/
theorem suits_of_get? {slot : Slot} (h : (Value.entity kind slots).Tidy)
    (hget : Table.get? slot slots = some x) : slot.Suits kind :=
  (tidy_entity.1 h).2.1.suits slot (Table.mem_keys_of_get? hget)

theorem field? (h : v.Tidy) (hx : v.field? name = some x) : x.Tidy := by
  unfold Value.field? at hx
  split at hx
  · exact (tidy_entity.1 h).2.2 _ (Table.mem_of_get? hx)
  · cases hx

theorem get (h : v.Tidy) (hx : v.get name = .ok x) : x.Tidy := by
  obtain ⟨kind, slots, rfl, hget⟩ := get_ok.1 hx
  exact h.field? hget

theorem plus (hv : v.Tidy) (hw : w.Tidy) (hx : v.plus w = .ok x) : x.Tidy := by
  unfold Value.plus at hx
  split at hx
  · obtain rfl := Except.ok.inj hx
    exact .text _
  · obtain rfl := Except.ok.inj hx
    exact .list fun y hy => (List.mem_append.1 hy).elim (tidy_list.1 hv y) (tidy_list.1 hw y)
  · split at hx
    · obtain ⟨n, -, rfl⟩ := Outcome.map_ok.1 hx
      exact .number n
    · cases hx

/-- What an entity computes is a text, a truth value, or put together from what it holds. -/
theorem computed (h : v.Tidy) (hx : v.computed name = .ok x) : x.Tidy := by
  unfold Value.computed at hx
  split at hx
  · rename_i y _ hy
    obtain rfl := Except.ok.inj hx
    unfold extra? at hy
    split at hy
    · exact (tidy_entity.1 h).2.2 _ (Table.mem_of_get? hy)
    · cases hy
  · unfold compute at hx
    split at hx
    · obtain ⟨s, -, rfl⟩ := Outcome.map_ok.1 hx
      exact .text s
    split at hx
    · obtain ⟨stats, hstats, hx⟩ := Outcome.bind_ok.1 hx
      obtain ⟨legal, hlegal, hx⟩ := Outcome.bind_ok.1 hx
      obtain ⟨damage, hdamage, hx⟩ := Outcome.bind_ok.1 hx
      have htidy := h.get hstats
      exact (htidy.get hlegal).plus (htidy.get hdamage) hx
    · obtain ⟨b, -, rfl⟩ := Outcome.map_ok.1 hx
      exact .bool b

/-- What stands under a built-in name of an entity has each key once, as the entity has. -/
theorem member {member : Member} (hmember : kind.member? name = some member)
    (h : (Value.entity kind slots).Tidy) : (member.value kind slots name).Tidy := by
  obtain ⟨-, hslots, hvalues⟩ := tidy_entity.1 h
  cases member with
  | operation shared => exact .builtin _
  | given settable =>
    rw [Member.value]
    cases hslot : Table.get? .given slots with
    | none => exact .builtin _
    | some x => exact hvalues _ (Table.mem_of_get? hslot)
  | extras => exact .mapping hslots.nodup_extras fun e he => hvalues _ (mem_extras.1 he)
  | own =>
    refine .mapping hslots.nodup_own fun e he => ?_
    obtain ⟨s, hs⟩ := mem_own he
    exact hvalues _ hs
  | table entries =>
    rcases Kind.table_of_member hmember with rfl | rfl | rfl
    · refine .mapping ?_ fun e he => tidy_of_isDocument _ (Kind.isDocument_of_settings he)
      rw [Kind.settings]
      split <;> decide
    · refine .mapping ?_ fun e he => ?_
      · rw [Kind.fieldTable, Table.keys, List.map_map]
        exact Schema.nodup_names kind
      · obtain ⟨f, -, rfl⟩ := List.mem_map.1 he
        exact .builtin _
    · exact .mapping List.nodup_nil (by simp)

theorem read (h : v.Tidy) (hw : v.read s = .ok w) : w.Tidy := by
  cases hs : s.isHeld with
  | true =>
    rcases read_held hs hw with ⟨kind, slots, n, rfl, rfl, hget⟩ | ⟨es, k, rfl, rfl, hget⟩ |
      ⟨xs, i, rfl, rfl, hget⟩
    · exact (tidy_entity.1 h).2.2 _ (Table.mem_of_get? hget)
    · exact (tidy_mapping.1 h).2 _ (Table.mem_of_get? hget)
    · exact tidy_list.1 h _ (List.mem_of_getElem? hget)
  | false =>
    unfold Value.read at hw
    split at hw
    · cases hs
    · exact h.computed hw
    · split at hw
      · obtain rfl := Except.ok.inj hw
        exact h.member ‹_›
      · cases hw
    all_goals first | cases hs | cases hw

theorem follow (h : v.Tidy) (hw : v.follow steps = .ok w) : w.Tidy := by
  induction steps generalizing v with
  | nil =>
    obtain rfl := by simpa [Value.follow] using hw
    exact h
  | cons s rest ih =>
    obtain ⟨x, hx, hrest⟩ := follow_cons.1 hw
    exact ih (h.read hx) hrest

end Tidy

end Value

/-! ### What was read is tidy -/

theorem Schema.tidy_closed : ClosedUnderReading fun _ v => v.Tidy where
  document h := Value.tidy_of_isDocument _ h
  list := .list
  mapping := .mapping
  optional h := h
  entity {kind value extra} hkind h hfields := by
    have hkeys : OrderlyKeys kind
        (Table.keys (declaredSlots kind.fields value ++ extraSlots extra)) :=
      ⟨Table.keys extra, keys_declaredSlots, h.unique, h.fresh⟩
    exact .entity hkind hkeys.apart <| forall_declaredSlots.2
      ⟨hfields, fun e he => Value.tidy_of_isDocument _ (h.documents e he)⟩

end StoryWorld
