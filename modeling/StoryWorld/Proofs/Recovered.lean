import StoryWorld.Proofs.Reloaded
import StoryWorld.Proofs.Values

/-!
A story that is loaded again is equal to the one that was saved.

What is read again of a stored value differs from the value in the order of keys, and in that a
whole zero in a field for floats is a float now. Equality looks at neither: it goes by keys, and
compares numbers by what they stand for. It is shown shape by shape, like that a value is read again
at all.
-/

namespace StoryWorld

namespace Number

/-- A number that can be stored has a value. -/
theorem value?_of_isStorable {n : Number} (h : n.isStorable = true) : ∃ q, n.value? = some q := by
  cases n with
  | int n => exact ⟨n, rfl⟩
  | float x =>
    have hfinite : x.isFinite = true := h
    rw [Binary.isFinite_eq] at hfinite
    obtain ⟨v, hv⟩ := Option.isSome_iff_exists.1 hfinite
    exact ⟨v.value, by rw [value?, hv]; rfl⟩

/-- Numbers that have values are equal just if their values are. -/
theorem equal_iff {a b : Number} {p q : ℚ} (ha : a.value? = some p) (hb : b.value? = some q) :
    a.equal b = true ↔ p = q := by
  rw [equal, compare?_eq ha hb, beq_iff_eq, Option.some.injEq, compare_eq_iff_eq]

theorem equal_self {n : Number} (h : n.isStorable = true) : n.equal n = true := by
  obtain ⟨q, hq⟩ := value?_of_isStorable h
  exact (equal_iff hq hq).2 rfl

end Number

namespace Value

/-! ### Equality part by part -/

theorem equalItems_map {f : Value → Value} {xs : List Value} (h : ∀ x ∈ xs, (f x).equal x = true) :
    equalItems (xs.map f) xs = true := by
  induction xs with
  | nil => simp [equalItems]
  | cons x xs ih =>
    rw [List.forall_mem_cons] at h
    rw [List.map_cons, equalItems, h.1, ih h.2]
    rfl

theorem equalEntries_of_get? {es fs : List (String × Value)}
    (h : ∀ e ∈ es, ∃ y, Table.get? e.1 fs = some y ∧ e.2.equal y = true) :
    equalEntries es fs = true := by
  induction es with
  | nil => simp [equalEntries]
  | cons e es ih =>
    rw [List.forall_mem_cons] at h
    obtain ⟨⟨y, hget, heq⟩, hrest⟩ := h
    rw [equalEntries, hget, ih hrest]
    simp [heq]

theorem equalSlots_of_get? {ss ts : List (Slot × Value)}
    (h : ∀ s ∈ ss, ∃ y, Table.get? s.1 ts = some y ∧ s.2.equal y = true) :
    equalSlots ss ts = true := by
  induction ss with
  | nil => simp [equalSlots]
  | cons s ss ih =>
    rw [List.forall_mem_cons] at h
    obtain ⟨⟨y, hget, heq⟩, hrest⟩ := h
    rw [equalSlots, hget, ih hrest]
    simp [heq]

/-- A mapping whose keys came in order and whose values were replaced by equal ones is equal to what
it was. -/
theorem equal_mapping {f : Value → Value} {es : List (String × Value)}
    (hkeys : (Table.keys es).Nodup) (h : ∀ e ∈ es, (f e.2).equal e.2 = true) :
    (mapping (Table.sorted (es.map fun e => (e.1, f e.2)))).equal (mapping es) = true := by
  rw [equal, Bool.and_eq_true, beq_iff_eq, (Table.sorted_perm _).length_eq, List.length_map]
  refine ⟨rfl, equalEntries_of_get? fun e he => ?_⟩
  obtain ⟨g, hg, rfl⟩ := List.mem_map.1 (Table.mem_sorted.1 he)
  exact ⟨g.2, (Table.get?_eq_some_iff hkeys).2 hg, h g hg⟩

/-- A document is equal to itself with its keys in order. -/
theorem equal_sorted {v : Value} (hd : v.isDocument = true)
    (hn : ∀ n ∈ v.numbers, n.isStorable = true) : v.sorted.equal v = true := by
  induction v, hd using document_induct with
  | list xs _ ih =>
    rw [sorted_list, equal]
    refine equalItems_map fun x hx => ih x hx fun n hmem => ?_
    exact hn n (mem_numbers_list.2 ⟨x, hx, hmem⟩)
  | mapping es hkeys _ ih =>
    rw [sorted_mapping]
    refine equal_mapping hkeys fun e he => ih e he fun n hmem => ?_
    exact hn n (mem_numbers_mapping.2 ⟨e, he, hmem⟩)
  | number n =>
    rw [sorted, equal]
    · exact Number.equal_self (hn n List.mem_cons_self)
    all_goals simp
  | _ => simp [sorted, equal]

end Value

namespace Schema

/-- What a field of the shape holds is equal to what is read of it again. -/
def Recovers (shape : Shape) : Prop :=
  ∀ v, Held shape v → (∀ n ∈ v.numbers, n.isStorable = true) →
    (restored shape v).equal v = true

/-- A single value, or one that no shape speaks of, is equal to what it was. -/
theorem recovers_of_single {shape : Shape} (hs : shape.isSingle = true) (hreal : shape ≠ .real) :
    Recovers shape := by
  intro v hv hn
  have hsorted : restored shape v = v.sorted := by
    cases shape <;> first | rfl | exact absurd rfl hreal | cases hs
  rw [hsorted]
  exact Value.equal_sorted (isDocument_of_held hs hv) hn

theorem recovers_real : Recovers .real := by
  intro v hv hn
  rcases held_real hv with ⟨x, rfl⟩ | rfl
  · show (Value.float x).equal (.float x) = true
    rw [Value.float, Value.equal]
    exact Number.equal_self (hn (.float x) List.mem_cons_self)
  · rw [restored_zero, Value.float, Value.int, Value.equal]
    decide +kernel

theorem Recovers.list {item : Shape} (h : Recovers item) : Recovers (.list item) := by
  intro v hv hn
  obtain ⟨ys, rfl, hys⟩ := held_list hv
  rw [restored, Value.equal]
  refine Value.equalItems_map fun y hy => h y (hys y hy) fun n hmem => ?_
  exact hn n (Value.mem_numbers_list.2 ⟨y, hy, hmem⟩)

theorem Recovers.mapping {item : Shape} (h : Recovers item) : Recovers (.mapping item) := by
  intro v hv hn
  obtain ⟨es, rfl, hkeys, hes⟩ := held_mapping hv
  rw [restored]
  refine Value.equal_mapping hkeys fun e he => h e.2 (hes e he) fun n hmem => ?_
  exact hn n (Value.mem_numbers_mapping.2 ⟨e, he, hmem⟩)

theorem Recovers.optional {inner : Shape} (h : Recovers inner) : Recovers (.optional inner) := by
  intro v hv hn
  by_cases hnull : v = .null
  · subst hnull
    rw [restored, Value.equal]
  · rw [restored_optional hnull]
    exact h v (held_optional hnull hv) hn

section Record

variable {kind : Kind} {fields : Fields} {value : Field × Shape → Value}
  {extra : List (String × Value)}

theorem get?_extraSlots (hextra : (Table.keys extra).Nodup) {e : String × Value} (he : e ∈ extra) :
    Table.get? (.extra e.1) (declaredSlots fields value ++ extraSlots extra) = some e.2 := by
  have hdeclared : Table.get? (.extra e.1) (declaredSlots fields value) = none := by
    rw [Table.get?_eq_none_iff, Table.keys, declaredSlots, List.map_map]
    simp
  have hslots : (Table.keys (extraSlots extra)).Nodup := by
    have hkeys := hextra.map (f := Slot.extra) fun _ _ => by simp
    rw [Table.keys, List.map_map] at hkeys
    rwa [Table.keys, extraSlots, List.map_map]
  rw [Table.get?_append, hdeclared, Option.none_or, Table.get?_eq_some_iff hslots]
  exact List.mem_map.2 ⟨e, he, rfl⟩

/-- The declared fields count when entities are compared, and so do the extra ones. -/
theorem countP_declaredSlots (fields : Fields) (value : Field × Shape → Value)
    (extra : List (String × Value)) :
    (declaredSlots fields value ++ extraSlots extra).countP (Slot.counts ·.1) =
      fields.length + extra.length := by
  rw [List.countP_append, List.countP_eq_length.2, List.countP_eq_length.2, declaredSlots,
    extraSlots, List.length_map, List.length_map]
  · rw [extraSlots, List.forall_mem_map]
    exact fun _ _ => rfl
  · rw [declaredSlots, List.forall_mem_map]
    exact fun _ _ => rfl

/-- An entity whose fields are equal to what they were is equal to what it was. -/
theorem Recovers.record (horder : InOrder fields) (hkeep : kind.unknown = .keep)
    (hfields : ∀ f ∈ fields, Recovers f.2) : Recovers (.record kind fields) := by
  intro v hv hn
  obtain ⟨value, extra, h, rfl, -⟩ := heldEntity_of_validate horder hkeep hv
  have hlength : (restoredExtra extra).length = extra.length := by
    rw [restoredExtra, (Table.sorted_perm _).length_eq, List.length_map]
  rw [restored_record horder, Value.equal, countP_declaredSlots, countP_declaredSlots, hlength]
  simp only [beq_self_eq_true, Bool.true_and]
  refine Value.equalSlots_of_get? fun s hs => ?_
  rcases List.mem_append.1 hs with hs | hs
  · obtain ⟨f, hf, rfl⟩ := List.mem_map.1 hs
    refine ⟨value f, get?_declaredSlots horder hf _, ?_⟩
    exact hfields f hf _ (h.held f hf).1 fun n hmem =>
      hn n (mem_numbers_declaredSlots.2 (.inl ⟨f, hf, hmem⟩))
  · obtain ⟨g, hg, rfl⟩ := List.mem_map.1 hs
    obtain ⟨e, he, rfl⟩ := mem_restoredExtra hg
    refine ⟨e.2, get?_extraSlots h.unique he, ?_⟩
    exact Value.equal_sorted (h.documents e he) fun n hmem =>
      hn n (mem_numbers_declaredSlots.2 (.inr ⟨e, he, hmem⟩))

end Record

mutual

/-- Values of a shape in order are equal to what is read of them again. -/
theorem recovers_of_storable : ∀ shape, Storable shape → Recovers shape
  | .any, _ => recovers_of_single rfl nofun
  | .text, _ => recovers_of_single rfl nofun
  | .whole, _ => recovers_of_single rfl nofun
  | .real, _ => recovers_real
  | .truth, _ => recovers_of_single rfl nofun
  | .number, _ => recovers_of_single rfl nofun
  | .choice _, _ => recovers_of_single rfl nofun
  | .list item, h => (recovers_of_storable item h).list
  | .mapping item, h => (recovers_of_storable item h).mapping
  | .optional inner, h => (recovers_of_storable inner h).optional
  | .record kind fields, ⟨hkind, hroot, heq⟩ => by
    have hfields := recovers_of_storableFields fields (heq ▸ storableFields_kind hkind)
    subst heq
    exact Recovers.record (inOrder_kind hkind) (unknown_of_inStory hkind) hfields

/-- Fields in order are equal to what is read of them again. -/
theorem recovers_of_storableFields : ∀ fields, StorableFields fields → ∀ f ∈ fields, Recovers f.2
  | [], _ => by simp
  | (f, shape) :: rest, h => by
    rw [StorableFields, List.forall_mem_cons] at h
    rw [List.forall_mem_cons]
    exact ⟨recovers_of_storable shape h.1.2, recovers_of_storableFields rest h.2⟩

end

/-- A story that was read is equal to what is read of it again. -/
theorem recovers_worldState : Recovers Kind.worldState.shape :=
  Recovers.record inOrder_worldState rfl
    (recovers_of_storableFields Fields.worldState (@storableFields_kind .worldState rfl))

end Schema

namespace Story

open Schema

section Reload

variable {document : Value} {story : Story} (hd : document.isDocument = true)
  (h : Story.read document = .ok story)
  (hn : ∀ n ∈ story.toEntity.numbers, n.isStorable = true)
include hd h hn

/-- What is loaded again of a story that can be saved. -/
theorem reload_of_nesting (hdepth : story.toEntity.nesting ≤ Json.writeDepth) :
    ∃ again, story.reload = .ok again ∧ again.toEntity.equal story.toEntity = true ∧
      again.save = story.save ∧ again.reload = .ok again := by
  have hroom : story.toEntity.nesting < storedLevels := Nat.lt_succ_of_le hdepth
  have hheld := held_of_read hd h
  obtain ⟨saved, hsaved⟩ := restores_worldState.stores storedLevels _ hheld hroom
  obtain ⟨text, htext⟩ := (canonical?_stored hheld hn hsaved).2 hdepth
  have hsave : story.save = .ok text := save_ok.2 ⟨saved, hsaved, htext⟩
  have hload := load_canonical hheld hn hsaved htext
  have hagain := save_restored hheld hsaved hroom htext
  refine ⟨_, ?_, ?_, hagain.trans hsave.symm, ?_⟩
  · rw [reload, hsave]
    exact hload
  · rw [toEntity_ofEntity (held_restored hheld hsaved)]
    exact recovers_worldState _ hheld hn
  · rw [reload, hagain]
    exact hload

/-- A story that was read, with numbers that can be stored, can be loaded again just if it nests no
deeper than what can be written. What is loaded is equal to it, field by field and at every depth,
is saved as the same text, and loading that again changes nothing. -/
theorem reload_equal :
    ((∃ again, story.reload = .ok again) ↔ story.toEntity.nesting ≤ Json.writeDepth) ∧
      ∀ again, story.reload = .ok again → again.toEntity.equal story.toEntity = true ∧
        again.save = story.save ∧ again.reload = .ok again := by
  have hnesting : ∀ again, story.reload = .ok again →
      story.toEntity.nesting ≤ Json.writeDepth := by
    intro again hagain
    obtain ⟨text, hsave, -⟩ := Outcome.bind_ok.1 hagain
    exact nesting_of_save hd h hn hsave
  refine ⟨⟨fun ⟨again, hagain⟩ => hnesting again hagain, fun hdepth => ?_⟩, fun again hagain => ?_⟩
  · obtain ⟨again, hagain, -⟩ := reload_of_nesting hd h hn hdepth
    exact ⟨again, hagain⟩
  · obtain ⟨same, hsame, hequal⟩ := reload_of_nesting hd h hn (hnesting again hagain)
    rw [hagain] at hsame
    cases hsame
    exact hequal

end Reload

/-- The document of a story whose parts come wrapped, with a secret whose stats are left to their
fallbacks and keys that no field is known by. -/
def wrappedDocument : Value :=
  .mapping [("secrets", .mapping [("secrets", .list [.mapping [("id", .text "s")]])]),
    ("mood", .mapping [("b", .float 0.1), ("a", .list [.bool true, .int (-3)])]),
    ("world", .mapping [("global", .mapping [("tension", .float 2.0)])]),
    ("assets", .mapping [("cash_ledger", .list [.mapping [("holder", .text "a"),
      ("denarii", .int 5), ("note", .text "x")]])])]

/-- Such a story is equal to what is loaded again. -/
theorem reload_equal_wrapped : ∃ story again, read wrappedDocument = .ok story ∧
    story.reload = .ok again ∧ again.toEntity.equal story.toEntity = true ∧
      again.save = story.save ∧ again.reload = .ok again := by
  obtain ⟨story, hread, hn, hdepth⟩ := exists_read wrappedDocument (fun story =>
    (∀ n ∈ story.toEntity.numbers, n.isStorable = true) ∧
      story.toEntity.nesting ≤ Json.writeDepth) (by decide +kernel)
  obtain ⟨hexists, hequal⟩ := reload_equal (by decide +kernel) hread hn
  obtain ⟨again, hagain⟩ := hexists.2 hdepth
  exact ⟨story, again, hread, hagain, hequal again hagain⟩

/-- Objects in one another. -/
def boxed : Nat → Value
  | 0 => .mapping []
  | depth + 1 => .mapping [("in", boxed depth)]

/-- The document of a story with a character whose state of mind nests too deep by one. -/
def moodyDocument : Value :=
  .mapping [("characters", .list [.mapping [("id", .text "a"), ("emotional_state", boxed 251)]])]

/-- Such a story is read, but nothing can be loaded again. -/
theorem reload_refused_moody : ∃ story, read moodyDocument = .ok story ∧
    (∀ n ∈ story.toEntity.numbers, n.isStorable = true) ∧
      ¬ ∃ again, story.reload = .ok again := by
  obtain ⟨story, hread, hn, hdepth⟩ := exists_read moodyDocument (fun story =>
    (∀ n ∈ story.toEntity.numbers, n.isStorable = true) ∧
      Json.writeDepth < story.toEntity.nesting) (by decide +kernel)
  refine ⟨story, hread, hn, ?_⟩
  rintro ⟨again, hagain⟩
  obtain ⟨text, hsave, -⟩ := Outcome.bind_ok.1 hagain
  have hnesting := nesting_of_save (by decide +kernel) hread hn hsave
  omega

end Story

end StoryWorld
