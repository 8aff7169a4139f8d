import StoryWorld.Expression.Context
import StoryWorld.Proofs.Ties

/-!
Entities by their ids.

Every character and every tie of a story that was read has a text for its id. So looking one up by
its id never fails, and finds the first one that goes by it; a path that selects an item of a list
by its id finds the same one. Hence the roles of a scene can always be bound.
-/

namespace StoryWorld

namespace Value

/-- The text that an entity has for its id. -/
def id? : Value → Option String
  | entity _ slots =>
    match Table.get? (.field "id") slots with
    | some (text s) => some s
    | _ => none
  | _ => none

variable {v : Value} {s : String}

theorem id?_eq : v.id? = some s ↔
    ∃ kind slots, v = entity kind slots ∧ Table.get? (.field "id") slots = some (text s) := by
  constructor
  · intro h
    unfold id? at h
    split at h
    · split at h
      · next hget =>
        cases h
        exact ⟨_, _, rfl, hget⟩
      · cases h
    · cases h
  · rintro ⟨kind, slots, rfl, hget⟩
    simp [id?, hget]

theorem get_id (h : v.id? = some s) : v.get "id" = .ok (text s) := by
  obtain ⟨kind, slots, rfl, hget⟩ := id?_eq.1 h
  simp [get, field?, hget]

/-- A path that looks for an id finds the items that have it. -/
theorem hasId_eq (h : v.id? = some s) (id : String) : Locate.hasId id v = (v.id? == some id) := by
  obtain ⟨kind, slots, rfl, hget⟩ := id?_eq.1 h
  simp [Locate.hasId, Locate.idOf, hget, h, equal]

theorem findIdx?_hasId {xs : List Value} (h : ∀ x ∈ xs, ∃ s, x.id? = some s) (id : String) :
    xs.findIdx? (Locate.hasId id) = xs.findIdx? fun x => x.id? == some id := by
  induction xs with
  | nil => rfl
  | cons x xs ih =>
    rw [List.forall_mem_cons] at h
    obtain ⟨s, hs⟩ := h.1
    rw [List.findIdx?_cons, List.findIdx?_cons, hasId_eq hs, ih h.2]

theorem fieldIs_id (h : v.id? = some s) (id : String) :
    Story.fieldIs "id" (.text id) v = .ok (v.id? == some id) := by
  rw [Story.fieldIs, get_id h, h]
  simp [Except.map, equal]

end Value

/-! ### Lists of entities that were read -/

namespace Schema

theorem id?_of_validate {kind : Kind} {fields : Fields} {v w : Value}
    (h : validate (.record kind fields) v = .accepted w)
    (hf : fields.find? (fun f => f.1.name == "id") = some (Shape.required "id" .text)) :
    ∃ s, w.id? = some s := by
  obtain ⟨slots, x, rfl, hx, hadmits⟩ := read_field h "id" hf
  obtain ⟨s, rfl⟩ := text_admitted hadmits
  exact ⟨s, Value.id?_eq.2 ⟨kind, slots, rfl, hx⟩⟩

end Schema

namespace Story

variable {story : Story}

/-- Characters and ties, each in a list of their own, with texts for their ids. -/
structure Named (story : Story) : Prop where
  characters : ∃ xs, story.characters = .list xs ∧ ∀ x ∈ xs, ∃ s, x.id? = some s
  relationships : ∃ xs, story.relationships = .list xs ∧
    ∀ x ∈ xs, (∃ s, x.id? = some s) ∧ ∃ q, x.ends? = some q

theorem named_of_read {document : Value} (h : read document = .ok story) : story.Named := by
  have hties := isTie_of_read h
  obtain ⟨w, hw, rfl⟩ := Outcome.map_ok.1 h
  have hv := Verdict.outcome_ok.1 hw
  obtain ⟨xs, hxs, hcharacters⟩ := Schema.entities_of_validate hv "characters" .character rfl
  obtain ⟨ys, hys, hrelationships⟩ :=
    Schema.entities_of_validate hv "relationships" .relationship rfl
  refine ⟨⟨xs, hxs, ?_⟩, ⟨ys, hys, ?_⟩⟩
  · intro x hx
    obtain ⟨u, hu⟩ := hcharacters x hx
    exact Schema.id?_of_validate hu rfl
  · intro y hy
    obtain ⟨u, hu⟩ := hrelationships y hy
    refine ⟨Schema.id?_of_validate hu rfl, (hties y ?_).ends⟩
    show y ∈ (w.field "relationships").items
    rw [hys]
    exact hy

/-! ### Looking up -/

theorem findItem_of_ok {test : Value → Outcome Bool} {decides : Value → Bool} {xs : List Value}
    (h : ∀ x ∈ xs, test x = .ok (decides x)) : findItem test xs = .ok (xs.find? decides) := by
  induction xs with
  | nil => rfl
  | cons x xs ih =>
    rw [List.forall_mem_cons] at h
    rw [findItem, h.1, Outcome.ok_bind, ih h.2, List.find?_cons]
    cases decides x <;> rfl

/-- The first entity of a list with a given id. -/
def firstNamed? (xs : List Value) (id : String) : Option Value :=
  xs.find? fun x => x.id? == some id

theorem findItem_id {xs : List Value} (h : ∀ x ∈ xs, ∃ s, x.id? = some s) (id : String) :
    findItem (fieldIs "id" (.text id)) xs = .ok (firstNamed? xs id) := by
  refine findItem_of_ok ?_
  rintro x hx
  obtain ⟨s, hs⟩ := h x hx
  exact Value.fieldIs_id hs id

theorem id?_of_firstNamed? {xs : List Value} {id : String} {x : Value}
    (h : firstNamed? xs id = some x) : x.id? = some id := by
  simpa using List.find?_some h

/-- A path finds the first entity with an id where the look-up by ids does. -/
theorem findIdx?_hasId {xs : List Value} (h : ∀ x ∈ xs, ∃ s, x.id? = some s) {id : String}
    {x : Value} (hx : firstNamed? xs id = some x) :
    ∃ i, xs.findIdx? (Locate.hasId id) = some i ∧ xs[i]? = some x := by
  rw [firstNamed?, List.find?_eq_bind_findIdx?_getElem?] at hx
  rw [Value.findIdx?_hasId h]
  exact Option.bind_eq_some_iff.1 hx

namespace Named

variable (h : story.Named)
include h

theorem character?_eq (id : String) :
    story.character? (.text id) = .ok (firstNamed? story.characters.items id) := by
  obtain ⟨xs, hxs, hids⟩ := h.characters
  rw [character?, hxs]
  exact findItem_id hids id

theorem relationshipById?_eq (id : String) :
    story.relationshipById? (.text id) = .ok (firstNamed? story.relationships.items id) := by
  obtain ⟨xs, hxs, hties⟩ := h.relationships
  rw [relationshipById?, hxs]
  exact findItem_id (fun x hx => (hties x hx).1) id

/-- Looking for the tie from one character to another never fails. -/
theorem relationship?_eq (source target : String) :
    story.relationship? (.text source) (.text target) =
      .ok (story.firstTie? (source, target)) := by
  obtain ⟨xs, hxs, hties⟩ := h.relationships
  rw [relationship?, firstTie?, ties, hxs]
  refine findItem_of_ok ?_
  rintro tie htie
  obtain ⟨-, ⟨a, b⟩, hends⟩ := hties tie htie
  obtain ⟨hfrom, hto⟩ := Value.get_ends hends
  rw [fieldIs, fieldIs, hfrom, hto, hends]
  simp only [Except.map, Value.equal, Outcome.ok_bind]
  by_cases ha : a = source <;> simp [ha]

end Named

end Story

/-! ### Binding the roles -/

namespace Context

variable {story : Story}

/-- What an id that may be missing is bound to. -/
def boundIn (xs : List Value) (id : Option String) : Option Value :=
  (Text.present? id).bind (Story.firstNamed? xs)

theorem bound_eq {find : Value → Outcome (Option Value)} {xs : List Value}
    (h : ∀ id, find (.text id) = .ok (Story.firstNamed? xs id)) (id : Option String) :
    bound find id = .ok (boundIn xs id) := by
  unfold bound boundIn
  split
  · next id hid => rw [h, hid]; rfl
  · next hid => rw [hid]; rfl

theorem id?_of_boundIn {xs : List Value} {id : Option String} {x : Value}
    (h : boundIn xs id = some x) : ∃ s, Text.present? id = some s ∧ x.id? = some s := by
  obtain ⟨s, hs, hx⟩ := Option.bind_eq_some_iff.1 h
  exact ⟨s, hs, Story.id?_of_firstNamed? hx⟩

/-- The tie of a scene: the one that is bound, or else the first from the actor to the target. -/
def tieIn (story : Story) (bindings : Bindings) : Option Value :=
  if (Text.present? bindings.relationship).isSome then
    boundIn story.relationships.items bindings.relationship
  else do
    let actor ← boundIn story.characters.items bindings.actor
    let target ← boundIn story.characters.items bindings.target
    story.firstTie? (← actor.id?, ← target.id?)

/-- Binding the roles of a story that was read never fails. -/
theorem ofStory_eq (h : story.Named) (bindings : Bindings) :
    ofStory story bindings = .ok
      ⟨boundIn story.characters.items bindings.actor,
        boundIn story.characters.items bindings.target, some story.world,
        tieIn story bindings, some story, bindings.actor == bindings.target⟩ := by
  rw [ofStory, bound_eq h.character?_eq, bound_eq h.character?_eq, tieIn]
  simp only [Outcome.ok_bind]
  split
  · rw [bound_eq h.relationshipById?_eq]
    rfl
  · cases hactor : boundIn story.characters.items bindings.actor with
    | none => rfl
    | some actor =>
      cases htarget : boundIn story.characters.items bindings.target with
      | none => rfl
      | some target =>
        obtain ⟨a, -, ha⟩ := id?_of_boundIn hactor
        obtain ⟨b, -, hb⟩ := id?_of_boundIn htarget
        rw [between, Value.get_id ha, Value.get_id hb]
        simp only [Outcome.ok_bind, h.relationship?_eq, Option.bind_eq_bind, Option.bind_some,
          ha, hb]
        rfl

end Context

end StoryWorld
