import StoryWorld.Proofs.Frame

/-!
Values as they stand in a story that deltas have changed.

A field of a story can come to hold any document, whatever its shape says. All else that it holds
was read as its shape says: an entity keeps its declared fields and no extra field under the name
that a declared one has in documents, and what was attached to it are documents. A change along what
a value holds keeps that, if what is put there can take the place of what was there.
-/

namespace StoryWorld

namespace Shape

/-- The shape of what is not null under a shape. -/
def core : Shape → Shape
  | .optional inner => inner.core
  | shape => shape

/-- Whether a number can be read as a shape. -/
def takesNumber : Shape → Bool
  | .any | .whole | .real | .number => true
  | .optional inner => inner.takesNumber
  | _ => false

end Shape

/-- A guarded field that takes a number is one for numbers of either type. -/
theorem Kind.eq_number_of_takesNumber {kind : Kind} (hk : kind.guarded = true) :
    ∀ f ∈ kind.fields, f.2.takesNumber = true → f.2 = .number := by
  cases kind <;> first
    | cases hk; done
    | simp [Kind.fields, Fields.ledgerEntry, Fields.assets, Shape.required, Shape.withDefault,
        Shape.ruled, Shape.many, Shape.nullable, Shape.plain, Shape.takesNumber]

/-- Slots as the entities of a kind have them: all declared fields and no others, no extra field
under the name that a declared one has in documents, nothing in the place of the set of given fields,
and numbers in a guarded field only if it is one for numbers. -/
structure SlotsFit (kind : Kind) (slots : List (Slot × Value)) : Prop where
  unique : (Table.keys slots).Nodup
  declared : ∀ name, Slot.field name ∈ Table.keys slots ↔ ∃ f ∈ kind.fields, f.1.name = name
  fresh : ∀ f ∈ kind.fields, Slot.extra f.1.external ∉ Table.keys slots
  given : Slot.given ∉ Table.keys slots
  guards : kind.guarded = true → ∀ f ∈ kind.fields, ∀ n,
    Table.get? (.field f.1.name) slots = some (.number n) → f.2 = .number

namespace SlotsFit

variable {kind : Kind} {slots : List (Slot × Value)} {slot : Slot} {v : Value}

theorem holdsFields (h : SlotsFit kind slots) : Locate.HoldsFields (.entity kind slots) :=
  fun f hf => Table.has_iff_mem.2 ((h.declared f.1.name).2 ⟨f, hf, rfl⟩)

/-- An entity with slots that fit notes what it is given. -/
theorem notes (h : SlotsFit kind slots) : Assign.notes slots = true := by
  rw [Assign.notes, Bool.not_eq_true', Bool.eq_false_iff]
  exact fun hhas => h.given (Table.has_iff_mem.1 hhas)

/-- Slots still fit with something else in a slot that is there, or attached. -/
theorem put (h : SlotsFit kind slots)
    (hslot : slot ∈ Table.keys slots ∨ ∃ name, slot = .attached name)
    (hv : kind.guarded = true → ∀ f ∈ kind.fields, slot = .field f.1.name → ∀ n, v = .number n →
      f.2 = .number) : SlotsFit kind (Table.put slot v slots) where
  unique := Table.nodup_keys_put h.unique
  declared name := by
    rw [Table.mem_keys_put, or_iff_right_of_imp, h.declared]
    rintro rfl
    exact hslot.resolve_right (by simp)
  fresh f hf hmem := by
    rcases Table.mem_keys_put.1 hmem with rfl | hmem
    · exact h.fresh f hf (hslot.resolve_right (by simp))
    · exact h.fresh f hf hmem
  given hmem := by
    rcases Table.mem_keys_put.1 hmem with rfl | hmem
    · exact h.given (hslot.resolve_right (by simp))
    · exact h.given hmem
  guards hk f hf n hget := by
    by_cases hf' : Slot.field f.1.name = slot
    · subst hf'
      rw [Table.get?_put_self] at hget
      exact hv hk f hf rfl n (Option.some.inj hget)
    · rw [Table.get?_put_of_ne hf'] at hget
      exact h.guards hk f hf n hget

theorem mem_keys_documented {s : Slot} : s ∈ Table.keys (slots.filter Assign.documented) ↔
    s ∈ Table.keys slots ∧ s.isDocumented = true := by
  have heq : ∀ e : Slot × Value, Assign.documented e = e.1.isDocumented := by
    rintro ⟨k, x⟩
    cases k <;> rfl
  simp only [Table.keys, List.mem_map, List.mem_filter, heq]
  constructor
  · rintro ⟨e, ⟨hmem, hdoc⟩, rfl⟩
    exact ⟨⟨e, hmem, rfl⟩, hdoc⟩
  · rintro ⟨⟨e, hmem, rfl⟩, hdoc⟩
    exact ⟨e, ⟨hmem, hdoc⟩, rfl⟩

/-- They still fit without what was attached. -/
theorem documented (h : SlotsFit kind slots) :
    SlotsFit kind (slots.filter Assign.documented) where
  unique := Table.nodup_keys_filter h.unique _
  declared name := by simp [mem_keys_documented, h.declared, Slot.isDocumented]
  fresh f hf hmem := h.fresh f hf (mem_keys_documented.1 hmem).1
  given hmem := h.given (mem_keys_documented.1 hmem).1
  guards hk f hf n hget := by
    rw [Table.get?_filter fun _ => rfl] at hget
    exact h.guards hk f hf n hget

end SlotsFit

namespace Value

/-- What can stand in a field of a shape after changes to a story: a document, or what was read as
the shape and changed inside. -/
inductive Stands : Shape → Value → Prop
  | document {shape : Shape} {v : Value} (h : v.isDocument = true) : Stands shape v
  | list {item : Shape} {xs : List Value} (h : ∀ x ∈ xs, Stands item x) :
    Stands (.list item) (list xs)
  | mapping {item : Shape} {es : List (String × Value)} (hkeys : (Table.keys es).Nodup)
    (h : ∀ e ∈ es, Stands item e.2) : Stands (.mapping item) (mapping es)
  | optional {inner : Shape} {v : Value} (h : Stands inner v) : Stands (.optional inner) v
  | entity {kind : Kind} {slots : List (Slot × Value)} (hkind : kind.inStory = true)
    (hslots : SlotsFit kind slots)
    (hdeclared : ∀ f ∈ kind.fields, ∀ x, Table.get? (.field f.1.name) slots = some x →
      Stands f.2 x)
    (hothers : ∀ slot x, Table.get? slot slots = some x → (∀ name, slot ≠ .field name) →
      x.isDocument = true) : Stands kind.shape (entity kind slots)

/-- An entity of a story with the slots of its kind, each holding what can stand in it. -/
structure IsStanding (kind : Kind) (slots : List (Slot × Value)) : Prop where
  inStory : kind.inStory = true
  fits : SlotsFit kind slots
  declared : ∀ f ∈ kind.fields, ∀ x, Table.get? (.field f.1.name) slots = some x → Stands f.2 x
  others : ∀ slot x, Table.get? slot slots = some x → (∀ name, slot ≠ .field name) →
    x.isDocument = true

variable {shape item inner : Shape} {v w old new : Value} {s : Step} {steps : List Step}
  {kind : Kind} {slots : List (Slot × Value)}

/-- Where no shape says anything, documents stand. -/
theorem stands_any : Stands .any v ↔ v.isDocument = true := by
  refine ⟨fun h => ?_, .document⟩
  cases h with
  | document h => exact h

theorem Stands.of_core (h : Stands shape.core v) : Stands shape v := by
  induction shape using Shape.core.induct with
  | case1 inner ih => exact .optional (ih h)
  | case2 shape hshape =>
    cases shape with
    | optional inner => exact absurd rfl (hshape inner)
    | _ => exact h

/-- An entity stands where its kind does. -/
theorem stands_entity : Stands shape (entity kind slots) ↔
    shape.core = kind.shape ∧ IsStanding kind slots := by
  constructor
  · generalize hv : entity kind slots = v
    intro h
    induction h with
    | document h =>
      subst hv
      cases h
    | list | mapping => cases hv
    | optional h ih => exact ih hv
    | entity hkind hslots hdeclared hothers =>
      cases hv
      exact ⟨rfl, hkind, hslots, hdeclared, hothers⟩
  · rintro ⟨hcore, hkind, hslots, hdeclared, hothers⟩
    refine .of_core ?_
    rw [hcore]
    exact .entity hkind hslots hdeclared hothers

theorem stands_list {xs : List Value} : Stands shape (list xs) ↔ (list xs).isDocument = true ∨
    ∃ item, shape.core = .list item ∧ ∀ x ∈ xs, Stands item x := by
  constructor
  · generalize hv : list xs = v
    intro h
    induction h with
    | document h => exact .inl (hv ▸ h)
    | list h =>
      cases hv
      exact .inr ⟨_, rfl, h⟩
    | optional _ ih => exact ih hv
    | mapping | entity => cases hv
  · rintro (h | ⟨item, hcore, h⟩)
    · exact .document h
    · refine .of_core ?_
      rw [hcore]
      exact .list h

theorem stands_mapping {es : List (String × Value)} : Stands shape (mapping es) ↔
    (mapping es).isDocument = true ∨
      ∃ item, shape.core = .mapping item ∧ (Table.keys es).Nodup ∧ ∀ e ∈ es, Stands item e.2 := by
  constructor
  · generalize hv : mapping es = v
    intro h
    induction h with
    | document h => exact .inl (hv ▸ h)
    | mapping hkeys h =>
      cases hv
      exact .inr ⟨_, rfl, hkeys, h⟩
    | optional _ ih => exact ih hv
    | list | entity => cases hv
  · rintro (h | ⟨item, hcore, hkeys, h⟩)
    · exact .document h
    · refine .of_core ?_
      rw [hcore]
      exact .mapping hkeys h

theorem Stands.holdsFields (h : Stands shape v) : Locate.HoldsFields v := by
  cases v with
  | entity kind slots => exact (stands_entity.1 h).2.fits.holdsFields
  | _ => trivial

/-! ### Steps along what a value holds -/

/-- What is in a slot of a standing entity stands under some shape. -/
theorem IsStanding.get? (h : IsStanding kind slots) {n : Slot}
    (hget : Table.get? n slots = some w) : ∃ shape, Stands shape w := by
  cases n with
  | field name =>
    obtain ⟨f, hf, rfl⟩ :=
      (h.fits.declared name).1 (Table.mem_keys_of_get? hget)
    exact ⟨f.2, h.declared f hf w hget⟩
  | extra name => exact ⟨.any, .document (h.others _ w hget (by simp))⟩
  | attached name => exact ⟨.any, .document (h.others _ w hget (by simp))⟩
  | given => exact ⟨.any, .document (h.others _ w hget (by simp))⟩

/-- What a standing value holds stands under some shape. -/
theorem Stands.read (h : Stands shape v) (hs : s.isHeld = true) (hw : v.read s = .ok w) :
    ∃ shape, Stands shape w := by
  rcases read_held hs hw with ⟨kind, slots, n, rfl, rfl, hget⟩ | ⟨es, k, rfl, rfl, hget⟩ |
    ⟨xs, i, rfl, rfl, hget⟩
  · exact (stands_entity.1 h).2.get? hget
  · have hmem := Table.mem_of_get? hget
    rcases stands_mapping.1 h with h | ⟨item, -, -, h⟩
    · exact ⟨.any, .document ((isDocument_mapping.1 h).2 _ hmem)⟩
    · exact ⟨item, h _ hmem⟩
  · have hmem := List.mem_of_getElem? hget
    rcases stands_list.1 h with h | ⟨item, -, h⟩
    · exact ⟨.any, .document (isDocument_list.1 h _ hmem)⟩
    · exact ⟨item, h _ hmem⟩

theorem Stands.follow (h : Stands shape v) (hd : ∀ s ∈ steps, s.isHeld = true)
    (hw : v.follow steps = .ok w) : ∃ shape, Stands shape w := by
  induction steps generalizing shape v with
  | nil =>
    obtain rfl := by simpa [Value.follow] using hw
    exact ⟨shape, h⟩
  | cons s rest ih =>
    rw [List.forall_mem_cons] at hd
    obtain ⟨x, hx, hrest⟩ := follow_cons.1 hw
    obtain ⟨shape', hshape'⟩ := h.read hd.1 hx
    exact ih hshape' hd.2 hrest

/-! ### What takes the place of something -/

/-- Whether a value stands wherever another one does. -/
def StandsFor (old new : Value) : Prop := ∀ shape, Stands shape old → Stands shape new

/-- Whether it does also where a guarded field takes numbers only if it is one for them, and where
no mapping may stand that could be taken for a wrapped part of a story. -/
structure Succeeds (old new : Value) : Prop where
  stands : StandsFor old new
  number : ∀ n, new = number n → ∃ m, old = number m
  form : ∀ es, new = mapping es → ∃ fs, old = mapping fs

theorem Succeeds.refl (v : Value) : Succeeds v v :=
  ⟨fun _ h => h, fun n h => ⟨n, h⟩, fun es h => ⟨es, h⟩⟩

theorem standsFor_document (h : v.isDocument = true) : StandsFor old v := fun _ _ => .document h

theorem StandsFor.isDocument (h : StandsFor old new) (hold : old.isDocument = true) :
    new.isDocument = true :=
  stands_any.1 (h .any (.document hold))

/-- An entity still stands with something in one of its slots that can stand there. -/
theorem IsStanding.put {slot : Slot} (h : IsStanding kind slots)
    (hslot : slot ∈ Table.keys slots ∨ ∃ name, slot = .attached name)
    (hdeclared : ∀ f ∈ kind.fields, slot = .field f.1.name → Stands f.2 v ∧
      (kind.guarded = true → ∀ n, v = number n → f.2 = .number))
    (hothers : (∀ name, slot ≠ .field name) → v.isDocument = true) :
    IsStanding kind (Table.put slot v slots) where
  inStory := h.inStory
  fits := h.fits.put hslot fun hk f hf hname => (hdeclared f hf hname).2 hk
  declared f hf x hget := by
    by_cases hname : Slot.field f.1.name = slot
    · subst hname
      rw [Table.get?_put_self] at hget
      exact Option.some.inj hget ▸ (hdeclared f hf rfl).1
    · rw [Table.get?_put_of_ne hname] at hget
      exact h.declared f hf x hget
  others slot' x hget hslot' := by
    by_cases hname : slot' = slot
    · subst hname
      rw [Table.get?_put_self] at hget
      exact Option.some.inj hget ▸ hothers hslot'
    · rw [Table.get?_put_of_ne hname] at hget
      exact h.others slot' x hget hslot'

/-- So it does without what was attached to it. -/
theorem IsStanding.documented (h : IsStanding kind slots) :
    IsStanding kind (slots.filter Assign.documented) where
  inStory := h.inStory
  fits := h.fits.documented
  declared f hf x hget := by
    rw [Table.get?_filter fun _ => rfl] at hget
    exact h.declared f hf x hget
  others slot x hget hslot := by
    have hmem := Table.mem_of_get? hget
    have hget' := (Table.get?_eq_some_iff h.fits.unique).2 (List.mem_filter.1 hmem).1
    exact h.others slot x hget' hslot

theorem succeeds_entity {slots' : List (Slot × Value)}
    (h : IsStanding kind slots → IsStanding kind slots') :
    Succeeds (entity kind slots) (entity kind slots') where
  stands shape hv := by
    rw [stands_entity] at hv ⊢
    exact hv.imp_right h
  number := by simp
  form := by simp

/-- A mapping in which a value took the place of another stands where it stood. -/
theorem succeeds_put_key {es : List (String × Value)} {k : String}
    (hget : Table.get? k es = some old) (h : StandsFor old new) :
    Succeeds (mapping es) (mapping (Table.put k new es)) where
  stands shape hv := by
    have hkeys : Table.keys (Table.put k new es) = Table.keys es :=
      Table.keys_put (Table.has_iff.2 ⟨old, hget⟩)
    have hold := Table.mem_of_get? hget
    rcases stands_mapping.1 hv with hv | ⟨item, hcore, hunique, hv⟩
    · obtain ⟨hunique, hdocuments⟩ := isDocument_mapping.1 hv
      refine .document (isDocument_mapping.2 ⟨hkeys ▸ hunique, fun e he => ?_⟩)
      rcases Table.mem_put he with rfl | he
      · exact h.isDocument (hdocuments _ hold)
      · exact hdocuments e he
    · refine stands_mapping.2 (.inr ⟨item, hcore, hkeys ▸ hunique, fun e he => ?_⟩)
      rcases Table.mem_put he with rfl | he
      · exact h item (hv _ hold)
      · exact hv e he
  number := by simp
  form := by simp

/-- A list whose items are items of another one, stand for one, or are documents, stands where that
stood. -/
theorem succeeds_list {xs ys : List Value}
    (h : ∀ y ∈ ys, (∃ x ∈ xs, StandsFor x y) ∨ y.isDocument = true) :
    Succeeds (list xs) (list ys) where
  stands shape hv := by
    rcases stands_list.1 hv with hv | ⟨item, hcore, hv⟩
    · refine .document (isDocument_list.2 fun y hy => ?_)
      rcases h y hy with ⟨x, hx, hxy⟩ | hdocument
      · exact hxy.isDocument (isDocument_list.1 hv x hx)
      · exact hdocument
    · refine stands_list.2 (.inr ⟨item, hcore, fun y hy => ?_⟩)
      rcases h y hy with ⟨x, hx, hxy⟩ | hdocument
      · exact hxy item (hv x hx)
      · exact .document hdocument
  number := by simp
  form := by simp

theorem succeeds_set_item {xs : List Value} {i : Nat} (hget : xs[i]? = some old)
    (h : StandsFor old new) : Succeeds (list xs) (list (xs.set i new)) := by
  refine succeeds_list fun y hy => .inl ?_
  rcases List.mem_or_eq_of_mem_set hy with hy | rfl
  · exact ⟨y, hy, fun _ h => h⟩
  · exact ⟨old, List.mem_of_getElem? hget, h⟩

/-- What is changed inside takes the place of what it was. -/
theorem Succeeds.put (h : Succeeds old new) (hs : s.isHeld = true) (hold : v.read s = .ok old) :
    Succeeds v (v.put s new) := by
  rcases read_held hs hold with ⟨kind, slots, n, rfl, rfl, hget⟩ | ⟨es, k, rfl, rfl, hget⟩ |
    ⟨xs, i, rfl, rfl, hget⟩
  · refine succeeds_entity fun hv => hv.put ?_ (fun f hf hn => ?_) fun hn => ?_
    · exact .inl (Table.mem_keys_of_get? hget)
    · subst hn
      refine ⟨h.stands _ (hv.declared f hf old hget), fun hk n hn => ?_⟩
      obtain ⟨m, rfl⟩ := h.number n hn
      exact hv.fits.guards hk f hf m hget
    · exact h.stands.isDocument (hv.others n old hget hn)
  · exact succeeds_put_key hget h.stands
  · exact succeeds_set_item hget h.stands

theorem Succeeds.replace (h : Succeeds old new) (hd : ∀ s ∈ steps, s.isHeld = true)
    (hold : v.follow steps = .ok old) : Succeeds v (v.replace steps new) := by
  induction steps generalizing v with
  | nil =>
    obtain rfl := by simpa [Value.follow] using hold
    exact h
  | cons s rest ih =>
    rw [List.forall_mem_cons] at hd
    obtain ⟨x, hx, hrest⟩ := follow_cons.1 hold
    rw [replace_cons_held hd.1 hx]
    exact (ih hd.2 hrest).put hd.1 hx

end Value

/-! ### What was read stands -/

namespace Schema

open Value

theorem takesNumber_of_validate {v : Value} {n : Number} : ∀ shape : Shape,
    validate shape v = .accepted (.number n) → shape.takesNumber = true
  | .any, _ | .whole, _ | .real, _ | .number, _ => rfl
  | .text, h | .choice _, h | .mapping _, h => by
    unfold validate at h
    (repeat' split at h) <;> first
      | cases h
      | obtain ⟨_, -, ⟨⟩⟩ := Verdict.map_accepted.1 h
  | .truth, h => by
    unfold validate at h
    obtain ⟨_, -, ⟨⟩⟩ := Verdict.map_accepted.1 h
  | .list _, h => by
    obtain ⟨_, _, -, ⟨⟩, -⟩ := list_accepted h
  | .optional inner, h => by
    unfold validate at h
    split at h
    · cases h
    · exact takesNumber_of_validate inner h
  | .record kind fields, h => by
    obtain ⟨_, _, _, _, _, _, hw⟩ := record_accepted h
    cases eq_of_checkWhole hw

theorem takesNumber_of_held {shape : Shape} {n : Number} (h : Held shape (.number n)) :
    shape.takesNumber = true := by
  rcases h with ⟨d, -, hread⟩ | ⟨rfl, -⟩
  · exact takesNumber_of_validate shape hread
  · rfl

/-- A number in a guarded field was read by one for numbers of either type. -/
theorem eq_number_of_held {kind : Kind} (hk : kind.guarded = true) {f : Field × Shape}
    (hf : f ∈ kind.fields) {n : Number} (h : Held f.2 (.number n)) : f.2 = .number :=
  Kind.eq_number_of_takesNumber hk f hf (takesNumber_of_held h)

/-- An entity that was read stands if what its declared fields hold does. -/
theorem stands_of_heldEntity {kind : Kind} {value : Field × Shape → Value}
    {extra : List (String × Value)} (hkind : kind.inStory = true)
    (h : HeldEntity kind.fields value extra) (hfields : ∀ f ∈ kind.fields, Stands f.2 (value f)) :
    Stands kind.shape (.entity kind (declaredSlots kind.fields value ++ extraSlots extra)) := by
  have hget : ∀ f ∈ kind.fields, Table.get? (.field f.1.name)
      (declaredSlots kind.fields value ++ extraSlots extra) = some (value f) :=
    fun f hf => get?_declaredSlots (inOrder_kind hkind) hf _
  refine .entity hkind ⟨?_, fun name => ?_, fun f hf => ?_, ?_, fun hk f hf n hn => ?_⟩
    (fun f hf x hx => ?_) fun slot x hx hslot => ?_
  · rw [keys_declaredSlots, List.nodup_append]
    refine ⟨(inOrder_kind hkind).nodup_slots, h.unique.map fun _ _ => Slot.extra.inj, ?_⟩
    rintro _ hs _ hs' rfl
    obtain ⟨f, -, rfl⟩ := List.mem_map.1 hs
    obtain ⟨_, -, ⟨⟩⟩ := List.mem_map.1 hs'
  · simp [keys_declaredSlots]
  · simpa [keys_declaredSlots] using h.fresh f hf
  · simp [keys_declaredSlots]
  · have hvalue := Option.some.inj ((hget f hf).symm.trans hn)
    exact eq_number_of_held hk hf (hvalue ▸ (h.held f hf).1)
  · obtain rfl := Option.some.inj ((hget f hf).symm.trans hx)
    exact hfields f hf
  · rcases List.mem_append.1 (Table.mem_of_get? hx) with hmem | hmem
    · obtain ⟨f, -, heq⟩ := List.mem_map.1 hmem
      exact absurd (congrArg Prod.fst heq).symm (hslot f.1.name)
    · obtain ⟨e, he, heq⟩ := List.mem_map.1 hmem
      obtain rfl : e.2 = x := congrArg Prod.snd heq
      exact h.documents e he

theorem stands_closed : ClosedUnderReading Stands where
  document := .document
  list := .list
  mapping := .mapping
  optional := .optional
  entity := stands_of_heldEntity

/-- An entity of a story that was read stands. -/
theorem stands_of_kind {kind : Kind} (hk : kind.inStory = true) {v : Value}
    (h : Held kind.shape v) : Stands kind.shape v :=
  stands_closed.of_kind hk h

/-- A field of a kind in a story can hold what was read for it. -/
theorem stands_of_field {kind : Kind} (hk : kind.inStory = true) {f : Field × Shape}
    (hf : f ∈ kind.fields) {v : Value} (h : Held f.2 v) : Stands f.2 v :=
  stands_closed.of_field hk hf h

end Schema

end StoryWorld
