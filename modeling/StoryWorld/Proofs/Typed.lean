import StoryWorld.Path.Assign
import StoryWorld.Proofs.Reloaded
import StoryWorld.Proofs.Sizes
import StoryWorld.Proofs.Ties

/-!
Entities whose fields are of the types that those who look into them rely on.

Only some fields of a story are looked into when it is queried, when a scene is told of it or when
its secrets fade; any other can hold anything. A story that was read has values of the declared
types in all of them. The stats of a secret are added up and multiplied by floats, so none of them
may be a whole number that is too large for one; of the extra stats that is asked only where
secrets fade.
-/

namespace StoryWorld

/-- The fields of a kind that are looked into. -/
def Kind.lookedInto : Kind → List String
  | worldState => ["characters", "relationships", "secrets", "assets", "threads"]
  | character => ["stats", "status", "bdi"]
  | mind => ["beliefs"]
  | belief => ["text", "confidence"]
  | relationship => ["from_", "to", "type", "weights", "flags"]
  | secret => ["id", "subject_ids", "holders", "description", "stats", "decay"]
  | secretStats => ["legal_value", "public_damage", "credibility"]
  | secretDecay => ["half_life_episodes", "applies_to", "last_decayed_episode"]
  | assets => ["contracts", "networks", "offices"]
  | network => ["id", "name", "owner", "type"]
  | office => ["id", "name", "owner", "powers"]
  | contract => ["id", "type", "status", "stakeholders"]
  | thread => ["advance_cadence", "episodes_since_progress"]
  | threadCadence => ["max_episodes_without_progress"]
  | _ => []

namespace Value

variable {v x : Value} {name : String}

theorem get_ok : v.get name = .ok x ↔ ∃ kind slots, v = entity kind slots ∧
    Table.get? (.field name) slots = some x := by
  cases v with
  | entity kind slots =>
    simp only [get, field?]
    split <;> simp_all
  | _ => simp [get, field?]

theorem field_of_get (h : v.get name = .ok x) :
    v.field name = x := by
  unfold get at h
  unfold field
  split at h
  · next hfield =>
    rw [hfield]
    exact Except.ok.inj h
  · cases h

end Value

namespace Schema

/-- Whether a value can be multiplied by a float, if it is a stat of a secret. -/
def fades (kind : Kind) (v : Value) : Bool := kind != .secretStats || v.number?.all Number.fits

theorem fits_of_fades {n : Number} (h : fades .secretStats (.number n) = true) : n.fits = true := by
  simpa [fades, Value.number?] using h

/-- Whether a slot of an entity is in order apart from the type of a declared field: no other fields
are there, an extra stat can fade, if that is asked, what was attached has a name that no operation
has, and nothing is in the place of the set of given fields. -/
def typedBeside (limited : Bool) (kind : Kind) (e : Slot × Value) : Bool :=
  match e.1 with
  | .field name => (kind.field? name).isSome
  | .extra _ => !limited || fades kind e.2
  | .attached name => Assign.isPrivate name
  | .given => false

mutual

/-- Whether a value is of the type that a shape declares, as far as it is looked into. -/
def typed (limited : Bool) : Shape → Value → Bool
  | .any, _ => true
  | .truth, _ => true
  | .text, v => v.category == .string
  | .choice _, v => v.category == .string
  | .whole, v => v.category == .number
  | .real, v => v.category == .number
  | .number, v => v.category == .number
  | .list item, v =>
    match v with
    | .list xs => xs.all (typed limited item)
    | _ => false
  | .mapping item, v =>
    match v with
    | .mapping es => es.all fun e => typed limited item e.2
    | _ => false
  | .optional inner, v => v.category == .null || typed limited inner v
  | .record kind fields, v =>
    match v with
    | .entity kind' slots => kind' == kind && typedFields limited kind fields slots &&
      slots.all (typedBeside limited kind)
    | _ => false

/-- Whether the declared fields of an entity are. -/
def typedFields (limited : Bool) (kind : Kind) : List (Field × Shape) → List (Slot × Value) → Bool
  | [], _ => true
  | (f, shape) :: rest, slots =>
    (match Table.get? (.field f.name) slots with
      | some x => !kind.lookedInto.contains f.name || typed limited shape x && fades kind x
      | none => false) && typedFields limited kind rest slots

end

/-- Whether a declared field of a kind can hold a value. -/
def typedField (limited : Bool) (kind : Kind) (f : Field × Shape) (x : Value) : Bool :=
  !kind.lookedInto.contains f.1.name || typed limited f.2 x && fades kind x

variable {limited : Bool} {kind item : Kind} {slots : List (Slot × Value)} {v x : Value}

theorem typedFields_iff {fields : Fields} : typedFields limited kind fields slots = true ↔
    ∀ f ∈ fields, ∃ x, Table.get? (.field f.1.name) slots = some x ∧
      typedField limited kind f x = true := by
  induction fields with
  | nil => simp [typedFields]
  | cons f fields ih =>
    rw [typedFields, Bool.and_eq_true, ih, List.forall_mem_cons]
    refine and_congr_left fun _ => ?_
    cases Table.get? (.field f.1.name) slots <;> simp [typedField]

/-- An entity is typed if each declared field is, and every slot is in order apart from that. -/
theorem typed_entity {kind' : Kind} : typed limited kind.shape (.entity kind' slots) = true ↔
    kind' = kind ∧ (∀ f ∈ kind.fields, ∃ x, Table.get? (.field f.1.name) slots = some x ∧
      typedField limited kind f x = true) ∧ ∀ e ∈ slots, typedBeside limited kind e = true := by
  rw [Kind.shape, typed, Bool.and_eq_true, Bool.and_eq_true, typedFields_iff, beq_iff_eq,
    List.all_eq_true, and_assoc]

theorem entity_of_typed (h : typed limited kind.shape v = true) :
    ∃ slots, v = .entity kind slots := by
  rw [Kind.shape] at h
  unfold typed at h
  split at h
  · simp only [Bool.and_eq_true, beq_iff_eq] at h
    obtain ⟨⟨rfl, -⟩, -⟩ := h
    exact ⟨_, rfl⟩
  · cases h

/-- An entity stays typed with another value in a slot, if that value is in order there. -/
theorem typed_put {s : Slot} {w : Value}
    (h : typed limited kind.shape (.entity kind slots) = true)
    (hfield : ∀ f ∈ kind.fields, Slot.field f.1.name = s → typedField limited kind f w = true)
    (hbeside : typedBeside limited kind (s, w) = true) :
    typed limited kind.shape (.entity kind (Table.put s w slots)) = true := by
  obtain ⟨-, hfields, hall⟩ := typed_entity.1 h
  refine typed_entity.2 ⟨rfl, fun f hf => ?_, fun e he => ?_⟩
  · by_cases hname : Slot.field f.1.name = s
    · exact ⟨w, by rw [hname, Table.get?_put_self], hfield f hf hname⟩
    · rw [Table.get?_put_of_ne hname]
      exact hfields f hf
  · rcases Table.mem_put he with rfl | he
    · exact hbeside
    · exact hall e he

/-! ### What typed values hold -/

theorem text_of_typed (h : typed limited .text v = true) : ∃ s, v = .text s := by
  cases v <;> simp [typed, Value.category] at h ⊢

theorem texts_of_typed {xs : List Value} (h : ∀ x ∈ xs, typed limited .text x = true) :
    ∀ x ∈ xs, ∃ s, x = .text s := fun x hx => text_of_typed (h x hx)

theorem number_of_category (h : v.category = .number) : ∃ n, v = .number n := by
  cases v <;> simp [Value.category] at h ⊢

theorem numbers_of_typed {es : List (String × Value)}
    (h : ∀ e ∈ es, typed limited .number e.2 = true) : ∀ e ∈ es, ∃ n, e.2 = .number n :=
  fun e he => number_of_category (by simpa [typed] using h e he)

/-- What stands under a key among numbers is a number, zero if there is nothing. -/
theorem number_of_key {es : List (String × Value)} (h : ∀ e ∈ es, ∃ n, e.2 = .number n)
    (key : String) : ∃ n, (Table.get? key es).getD (.int 0) = .number n := by
  cases hget : Table.get? key es with
  | none => exact ⟨.int 0, rfl⟩
  | some v => exact h _ (Table.mem_of_get? hget)

theorem list_of_typed {item : Shape} (h : typed limited (.list item) v = true) :
    ∃ xs, v = .list xs ∧ ∀ x ∈ xs, typed limited item x = true := by
  unfold typed at h
  split at h
  · exact ⟨_, rfl, List.all_eq_true.1 h⟩
  · cases h

theorem mapping_of_typed {item : Shape} (h : typed limited (.mapping item) v = true) :
    ∃ es, v = .mapping es ∧ ∀ e ∈ es, typed limited item e.2 = true := by
  unfold typed at h
  split at h
  · exact ⟨_, rfl, List.all_eq_true.1 h⟩
  · cases h

section Fields

variable (name : String) {f : Field × Shape} (hf : kind.field? name = some f)
  (h : typed limited kind.shape v = true)
include hf h

/-- Every declared field of a typed entity is there. -/
theorem exists_get : ∃ x, v.get name = .ok x ∧ typedField limited kind f x = true := by
  obtain ⟨slots, rfl⟩ := entity_of_typed h
  have hmem := List.mem_of_find?_eq_some hf
  obtain rfl : f.1.name = name := by simpa using List.find?_some hf
  obtain ⟨x, hx, htyped⟩ := (typed_entity.1 h).2.1 f hmem
  exact ⟨x, by simp [Value.get, Value.field?, hx], htyped⟩

/-- One that is looked into is typed. -/
theorem get_of_typed (hlooked : kind.lookedInto.contains name = true) :
    ∃ x, v.get name = .ok x ∧ typed limited f.2 x = true ∧ fades kind x = true := by
  obtain ⟨x, hx, htyped⟩ := exists_get name hf h
  obtain rfl : f.1.name = name := by simpa using List.find?_some hf
  rw [typedField, hlooked] at htyped
  exact ⟨x, hx, by simpa using htyped⟩

section Looked

variable (hlooked : kind.lookedInto.contains name = true)
include hlooked

theorem get_text (hshape : f.2 = .text) : ∃ s, v.get name = .ok (.text s) := by
  obtain ⟨x, hx, htyped, -⟩ := get_of_typed name hf h hlooked
  rw [hshape] at htyped
  obtain ⟨s, rfl⟩ := text_of_typed htyped
  exact ⟨s, hx⟩

theorem get_list {shape : Shape} (hshape : f.2 = .list shape) :
    ∃ xs, v.get name = .ok (.list xs) ∧ ∀ x ∈ xs, typed limited shape x = true := by
  obtain ⟨x, hx, htyped, -⟩ := get_of_typed name hf h hlooked
  rw [hshape] at htyped
  obtain ⟨xs, rfl, hxs⟩ := list_of_typed htyped
  exact ⟨xs, hx, hxs⟩

theorem get_mapping {shape : Shape} (hshape : f.2 = .mapping shape) :
    ∃ es, v.get name = .ok (.mapping es) ∧ ∀ e ∈ es, typed limited shape e.2 = true := by
  obtain ⟨x, hx, htyped, -⟩ := get_of_typed name hf h hlooked
  rw [hshape] at htyped
  obtain ⟨es, rfl, hes⟩ := mapping_of_typed htyped
  exact ⟨es, hx, hes⟩

theorem get_number (hshape : f.2 = .whole ∨ f.2 = .real ∨ f.2 = .number) :
    ∃ n, v.get name = .ok (.number n) ∧ fades kind (.number n) = true := by
  obtain ⟨x, hx, htyped, hfades⟩ := get_of_typed name hf h hlooked
  have hcategory : x.category = .number := by
    rcases hshape with hshape | hshape | hshape <;>
    · rw [hshape] at htyped
      simpa [typed] using htyped
  obtain ⟨n, rfl⟩ := number_of_category hcategory
  exact ⟨n, hx, hfades⟩

/-- A field for entities of a kind lists such as are typed. -/
theorem items_of_typed (hshape : f.2 = .list item.shape) :
    ∀ x ∈ (v.field name).items, typed limited item.shape x = true := by
  obtain ⟨xs, hxs, hitems⟩ := get_list name hf h hlooked hshape
  rw [Value.field_of_get hxs]
  exact hitems

end Looked

end Fields

/-- Whether a declared field of a typed entity is equal to a value can be said. -/
theorem fieldIs_of_typed (name : String) {f : Field × Shape} (hf : kind.field? name = some f)
    (h : typed limited kind.shape v = true) (wanted : Value) :
    Story.fieldIs name wanted v = .ok ((v.field name).equal wanted) := by
  obtain ⟨x, hx, -⟩ := exists_get name hf h
  rw [Story.fieldIs, hx, Value.field_of_get hx]
  rfl

/-- No operation of a typed entity has something else attached under its name. -/
theorem calling_of_typed (h : typed limited kind.shape v = true) {operation : String}
    (hname : Assign.isPrivate operation = false) : v.calling operation = .ok () := by
  obtain ⟨slots, rfl⟩ := entity_of_typed h
  have hnone : Table.has (.attached operation) slots = false := by
    rw [Bool.eq_false_iff]
    intro hhas
    obtain ⟨x, hx⟩ := Table.has_iff.1 hhas
    have hbeside := (typed_entity.1 h).2.2 _ (Table.mem_of_get? hx)
    simp [typedBeside, hname] at hbeside
  simp [Value.calling, hnone]

/-- Whether a thread is urgent is known. -/
theorem urgent_known (h : typed limited Kind.thread.shape v = true) :
    ∃ urgent, v.computed "is_urgent" = .ok (.bool urgent) := by
  obtain ⟨status, hstatus, -⟩ := exists_get "status" rfl h
  obtain ⟨a, hwaited, -⟩ := get_number "episodes_since_progress" rfl h rfl (.inl rfl)
  obtain ⟨cadence, hcadence, hinner, -⟩ := get_of_typed "advance_cadence" rfl h rfl
  obtain ⟨b, hlimit, -⟩ := get_number "max_episodes_without_progress" rfl hinner rfl (.inl rfl)
  obtain ⟨urgent, hurgent⟩ : ∃ urgent, v.isUrgent = .ok urgent := by
    rw [Value.isUrgent, hstatus, Outcome.ok_bind]
    split
    · rw [hwaited, Outcome.ok_bind, hcadence, Outcome.ok_bind, hlimit]
      exact ⟨_, rfl⟩
    · exact ⟨false, rfl⟩
  have hcompute : Value.compute "is_urgent" v = .ok (.bool urgent) := by
    rw [Value.compute, if_neg (by decide), if_neg (by decide), hurgent]
    rfl
  exact ⟨urgent, by rw [Value.computed, hcompute]⟩

/-! ### What was read is typed -/

theorem text_of_held (h : Held .text v) : ∃ s, v = .text s := by
  obtain ⟨d, -, h⟩ := (held_iff (by simp)).1 h
  unfold validate at h
  split at h
  · cases h
    exact ⟨_, rfl⟩
  · cases h

theorem choice_of_held {options : List String} (h : Held (.choice options) v) :
    ∃ s, v = .text s := by
  obtain ⟨d, -, h⟩ := (held_iff (by simp)).1 h
  unfold validate at h
  split at h
  · split at h
    · cases h
      exact ⟨_, rfl⟩
    · cases h
  · cases h

theorem number_of_held (h : Held .number v) : ∃ n, v = .number n := by
  obtain ⟨d, -, h⟩ := (held_iff (by simp)).1 h
  unfold validate at h
  obtain ⟨n, -, rfl⟩ := Verdict.map_accepted.1 h
  exact ⟨n, rfl⟩

theorem whole_of_held (h : Held .whole v) : ∃ n, v = .int n := by
  obtain ⟨d, -, h⟩ := (held_iff (by simp)).1 h
  unfold validate at h
  obtain ⟨n, -, rfl⟩ := Verdict.map_accepted.1 h
  exact ⟨n, rfl⟩

/-- The stats of a secret that are declared are real numbers, and all of them are looked into. -/
theorem stat_declared : ∀ f ∈ Kind.secretStats.fields,
    f.2 = .real ∧ Kind.secretStats.lookedInto.contains f.1.name = true := by
  simp [Kind.fields, Fields.secretStats, Shape.withDefault, Shape.plain, Kind.lookedInto]

/-- What was read for a stat of a secret is a float, or zero. -/
theorem fades_of_held {f : Field × Shape} (hf : f ∈ kind.fields) (h : Held f.2 v) :
    fades kind v = true := by
  by_cases hstats : kind = .secretStats
  · subst hstats
    rw [(stat_declared f hf).1] at h
    rcases held_real h with ⟨x, rfl⟩ | rfl
    · rfl
    · decide +kernel
  · simp [fades, hstats]

theorem typed_of_fields (hkind : kind.inStory = true)
    (hfields : ∀ f ∈ kind.fields, ∀ v, Held f.2 v → typed false f.2 v = true)
    (h : Held kind.shape v) : typed false kind.shape v = true := by
  obtain ⟨value, extra, hentity, rfl, -⟩ :=
    heldEntity_of_validate (inOrder_kind hkind) (unknown_of_inStory hkind) h
  refine typed_entity.2 ⟨rfl, fun f hf => ?_, fun e he => ?_⟩
  · have hheld := (hentity.held f hf).1
    refine ⟨value f, get?_declaredSlots (inOrder_kind hkind) hf _, ?_⟩
    simp [typedField, hfields f hf _ hheld, fades_of_held hf hheld]
  · rcases List.mem_append.1 he with he | he
    · obtain ⟨f, hf, rfl⟩ := List.mem_map.1 he
      simp [typedBeside, Kind.field?, (inOrder_kind hkind).find? hf]
    · obtain ⟨f, -, rfl⟩ := List.mem_map.1 he
      rfl

mutual

/-- What was read as a shape of a story is typed. -/
theorem typed_of_held : ∀ shape, Storable shape → ∀ v, Held shape v → typed false shape v = true
  | .any, _, v, _ => rfl
  | .truth, _, v, _ => rfl
  | .text, _, v, h => by
    obtain ⟨x, rfl⟩ := text_of_held h
    rfl
  | .choice _, _, v, h => by
    obtain ⟨x, rfl⟩ := choice_of_held h
    rfl
  | .whole, _, v, h => by
    obtain ⟨x, rfl⟩ := whole_of_held h
    rfl
  | .real, _, v, h => by
    rcases held_real h with ⟨x, rfl⟩ | rfl <;> rfl
  | .number, _, v, h => by
    obtain ⟨x, rfl⟩ := number_of_held h
    rfl
  | .list item, hs, v, h => by
    obtain ⟨xs, rfl, hxs⟩ := held_list h
    rw [typed, List.all_eq_true]
    exact fun x hx => typed_of_held item hs x (hxs x hx)
  | .mapping item, hs, v, h => by
    obtain ⟨es, rfl, -, hes⟩ := held_mapping h
    rw [typed, List.all_eq_true]
    exact fun e he => typed_of_held item hs e.2 (hes e he)
  | .optional inner, hs, v, h => by
    rw [typed, Bool.or_eq_true]
    by_cases hv : v = .null
    · exact .inl (by rw [hv]; rfl)
    · exact .inr (typed_of_held inner hs v (held_optional hv h))
  | .record kind fields, ⟨hkind, _, heq⟩, v, h => by
    have hfields := typed_of_heldFields fields (heq ▸ storableFields_kind hkind)
    subst heq
    exact typed_of_fields hkind hfields h

theorem typed_of_heldFields :
    ∀ fields, StorableFields fields → ∀ f ∈ fields, ∀ v, Held f.2 v → typed false f.2 v = true
  | [], _ => by simp
  | (f, shape) :: rest, h => by
    rw [StorableFields, List.forall_mem_cons] at h
    rw [List.forall_mem_cons]
    exact ⟨typed_of_held shape h.1.2, typed_of_heldFields rest h.2⟩

end

theorem typed_of_kind (hkind : kind.inStory = true) (h : Held kind.shape v) :
    typed false kind.shape v = true :=
  typed_of_fields hkind (typed_of_heldFields _ (storableFields_kind hkind)) h

/-! ### Extra stats that can fade -/

section Limited

variable (limited limited' : Bool)

theorem typedBeside_congr (hkind : kind ≠ .secretStats) (e : Slot × Value) :
    typedBeside limited kind e = typedBeside limited' kind e := by
  have hfades : fades kind e.2 = true := by simp [fades, hkind]
  unfold typedBeside
  split <;> simp [hfades]

mutual

/-- Whether extra stats are asked to fade does not matter to a shape without stats of secrets. -/
theorem typed_congr : ∀ shape : Shape, shape.within (· != .secretStats) = true →
    typed limited shape = typed limited' shape
  | .list item, h => by
    funext v
    unfold typed
    rw [typed_congr item (by rwa [Shape.within] at h)]
  | .mapping item, h => by
    funext v
    unfold typed
    rw [typed_congr item (by rwa [Shape.within] at h)]
  | .optional inner, h => by
    funext v
    rw [typed, typed, typed_congr inner (by rwa [Shape.within] at h)]
  | .record kind fields, h => by
    rw [Shape.within, Bool.and_eq_true] at h
    have hkind : kind ≠ .secretStats := by simpa using h.1
    funext v
    unfold typed
    simp only [typedFields_congr kind fields h.2, funext (typedBeside_congr limited limited' hkind)]
  | .any, _ | .truth, _ | .text, _ | .choice _, _ | .whole, _ | .real, _ | .number, _ => by
    funext v
    rw [typed, typed]

theorem typedFields_congr (kind : Kind) : ∀ fields : Fields,
    Shape.withinFields (· != .secretStats) fields = true →
      typedFields limited kind fields = typedFields limited' kind fields
  | [], _ => rfl
  | (f, shape) :: rest, h => by
    rw [Shape.withinFields, Bool.and_eq_true, Bool.and_eq_true] at h
    funext slots
    rw [typedFields, typedFields, typed_congr shape h.1.1, typedFields_congr kind rest h.2]

end

end Limited

/-- An entity is typed with that asked too, if the one field is that can have stats of secrets in
it. -/
theorem typed_of_field (hkind : kind.inStory = true) (hstats : kind ≠ .secretStats) (name : String)
    {f : Field × Shape} (hf : kind.field? name = some f)
    (hrest : ∀ g ∈ kind.fields, g.1.name ≠ name → g.2.within (· != .secretStats) = true)
    (h : typed false kind.shape v = true)
    (hfield : ∀ x, v.get name = .ok x → typed false f.2 x = true → typed true f.2 x = true) :
    typed true kind.shape v = true := by
  obtain ⟨slots, rfl⟩ := entity_of_typed h
  obtain ⟨-, hfields, hbeside⟩ := typed_entity.1 h
  refine typed_entity.2 ⟨rfl, fun g hg => ?_, fun e he => ?_⟩
  · obtain ⟨x, hx, htyped⟩ := hfields g hg
    refine ⟨x, hx, ?_⟩
    by_cases hname : g.1.name = name
    · subst hname
      rw [Kind.field?, (inOrder_kind hkind).find? hg] at hf
      obtain rfl := Option.some.inj hf
      have hget : (Value.entity kind slots).get g.1.name = .ok x := Value.get_ok.2 ⟨_, _, rfl, hx⟩
      simp only [typedField, Bool.or_eq_true, Bool.and_eq_true] at htyped ⊢
      exact htyped.imp_right (And.imp_left (hfield x hget))
    · rwa [typedField, typed_congr true false g.2 (hrest g hg hname)]
  · rw [typedBeside_congr true false hstats]
    exact hbeside e he

/-- The stats of a secret are, if the extra ones fade. -/
theorem typed_of_extras (h : typed false Kind.secretStats.shape v = true)
    (hextras : ∀ slots, v = .entity .secretStats slots →
      ∀ e ∈ slots, typedBeside true .secretStats e = true) :
    typed true Kind.secretStats.shape v = true := by
  obtain ⟨slots, rfl⟩ := entity_of_typed h
  obtain ⟨-, hfields, -⟩ := typed_entity.1 h
  refine typed_entity.2 ⟨rfl, fun f hf => ?_, hextras slots rfl⟩
  have hwithin : ∀ f ∈ Kind.secretStats.fields, f.2.within (· != .secretStats) = true := by decide
  obtain ⟨x, hx, htyped⟩ := hfields f hf
  exact ⟨x, hx, by rwa [typedField, typed_congr true false f.2 (hwithin f hf)]⟩

/-! ### Ties -/

/-- A typed tie is in order. -/
theorem isTie_of_typed (h : typed limited Kind.relationship.shape v = true) : v.IsTie := by
  obtain ⟨a, ha⟩ := get_text "from_" rfl h rfl rfl
  obtain ⟨b, hb⟩ := get_text "to" rfl h rfl rfl
  obtain ⟨es, hes, hnumbers⟩ := get_mapping "weights" rfl h rfl rfl
  obtain ⟨slots, rfl⟩ := entity_of_typed h
  obtain ⟨_, _, heq, hsource⟩ := Value.get_ok.1 ha
  obtain ⟨-, rfl⟩ := Value.entity.inj heq
  obtain ⟨_, _, heq, htarget⟩ := Value.get_ok.1 hb
  obtain ⟨-, rfl⟩ := Value.entity.inj heq
  refine ⟨⟨(a, b), by simp [Value.ends?, hsource, htarget]⟩, ⟨es, hes, fun e he => ?_⟩,
    fun operation => calling_of_typed h⟩
  exact numbers_of_typed hnumbers e he

end Schema

namespace Story

open Schema

/-- Whether the entities of a story are typed. -/
def typed (limited : Bool) (story : Story) : Bool :=
  Schema.typed limited Kind.worldState.shape story.toEntity

variable {story : Story} {limited : Bool}

theorem typed_of_read {document : Value} (hd : document.isDocument = true)
    (h : read document = .ok story) : story.typed false = true :=
  Schema.typed_of_kind rfl (held_of_read hd h)

/-- Whether the extra stats of the secrets of a story can fade. -/
def statsFade (story : Story) : Bool :=
  story.secrets.items.all fun secret =>
    match secret.field "stats" with
    | .entity kind slots => slots.all (typedBeside true kind)
    | _ => true

/-- A story is typed with that asked too, if its extra stats fade. -/
theorem typed_of_statsFade (h : story.typed false = true) (hfade : story.statsFade = true) :
    story.typed true = true := by
  refine typed_of_field rfl (by decide) "secrets" rfl (by decide) h fun list hlist hitems => ?_
  obtain rfl : story.secrets = list := Except.ok.inj hlist
  obtain ⟨secrets, hsecrets, htyped⟩ := list_of_typed hitems
  rw [statsFade, hsecrets, Value.items, List.all_eq_true] at hfade
  rw [hsecrets]
  refine List.all_eq_true.2 fun secret hs => ?_
  refine typed_of_field rfl (by decide) "stats" rfl (by decide) (htyped secret hs) ?_
  intro stats hstats hinner
  refine typed_of_extras hinner fun slots heq => ?_
  have hslots := hfade secret hs
  rw [Value.field_of_get hstats, heq] at hslots
  exact List.all_eq_true.1 hslots

/-- The entities of a story that are looked into. -/
structure Entities (limited : Bool) (story : Story) : Prop where
  ties : ∀ x ∈ story.ties, Schema.typed limited Kind.relationship.shape x = true
  characters : ∀ x ∈ story.characters.items, Schema.typed limited Kind.character.shape x = true
  secrets : ∀ x ∈ story.secrets.items, Schema.typed limited Kind.secret.shape x = true
  threads : ∀ x ∈ story.threads.items, Schema.typed limited Kind.thread.shape x = true
  networks : ∀ x ∈ (story.assets.field "networks").items,
    Schema.typed limited Kind.network.shape x = true
  offices : ∀ x ∈ (story.assets.field "offices").items,
    Schema.typed limited Kind.office.shape x = true
  contracts : ∀ x ∈ (story.assets.field "contracts").items,
    Schema.typed limited Kind.contract.shape x = true

theorem entities_of_typed (h : story.typed limited = true) : story.Entities limited := by
  obtain ⟨assets, hget, hassets, -⟩ := get_of_typed "assets" rfl h rfl
  obtain rfl : story.assets = assets := Except.ok.inj hget
  exact {
    ties := items_of_typed "relationships" rfl h rfl rfl
    characters := items_of_typed "characters" rfl h rfl rfl
    secrets := items_of_typed "secrets" rfl h rfl rfl
    threads := items_of_typed "threads" rfl h rfl rfl
    networks := items_of_typed "networks" rfl hassets rfl rfl
    offices := items_of_typed "offices" rfl hassets rfl rfl
    contracts := items_of_typed "contracts" rfl hassets rfl rfl }

end Story

end StoryWorld
