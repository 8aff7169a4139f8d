import StoryWorld.Proofs.Records
import StoryWorld.Proofs.Holdings

/-!
The entities of a story are restored.

Every kind in a story keeps the entries that it does not know, and has its fields in order. Of all
the kinds inside only assets are checked as a whole, and the check looks at the holders in the
ledger alone, which stay the same. So what a field holds is read again from what it is stored as,
whatever entities it holds.
-/

namespace StoryWorld

/-! ### The check of the ledger -/

theorem Value.get_of_holding {v : Value} {g : Holding} (h : v.holding? = some g) :
    v.isEntity .ledgerEntry = true ∧ v.get "holder" = .ok (.text g.holder) := by
  obtain ⟨slots, rfl, hholder, -⟩ := holding?_eq.1 h
  exact ⟨by simp [isEntity], by simp [get, field?, hholder]⟩

namespace Ledger

/-- The check of a ledger looks at nothing but who holds something. -/
theorem flawAfter?_map {r : Value → Value} : ∀ {seen entries : List Value},
    (∀ e ∈ entries, ∃ g, e.holding? = some g ∧ (r e).holding? = some g) →
      flawAfter? seen (entries.map r) = flawAfter? seen entries
  | seen, [], _ => rfl
  | seen, entry :: rest, h => by
    rw [List.forall_mem_cons] at h
    obtain ⟨⟨g, hg, hr⟩, hrest⟩ := h
    obtain ⟨hkind, hget⟩ := Value.get_of_holding hg
    obtain ⟨hkind', hget'⟩ := Value.get_of_holding hr
    rw [List.map_cons, flawAfter?, flawAfter?, hget, hget', hkind, hkind']
    simp only [Outcome.ok_bind, flawAfter?_map hrest, Bool.not_true, Bool.false_eq_true, if_false]

end Ledger

namespace Kind

/-- The kinds of entity in a story, and the story itself. -/
def inStory : Kind → Bool
  | worldTime | location | world | faction | characterStatus | belief | desire | intention | mind
  | voice | character | relationship | secretStats | secretDecay | secret | ledgerEntry | network
  | office | contract | grainAsset | assets | threadCadence | thread | constraintRule | constraints
  | worldState => true
  | _ => false

/-- The kinds of entity in a story that a document may leave out. -/
abbrev leftOut : List Kind :=
  [world, worldTime, characterStatus, mind, voice, secretStats, assets, threadCadence, constraints]

end Kind

namespace Schema

/-- A declared field of an entity becomes what its shape makes of it. -/
theorem get?_restoredFields {fields : Fields} {slots rest : List (Slot × Value)} {name : String}
    {f : Field} {shape : Shape}
    (hf : fields.find? (fun g => g.1.name == name) = some (f, shape)) :
    Table.get? (.field name) (restoredFields fields slots ++ rest) =
      some (restored shape ((Table.get? (.field name) slots).getD .null)) := by
  induction fields with
  | nil => cases hf
  | cons g gs ih =>
    obtain ⟨field, s⟩ := g
    rw [restoredFields, List.cons_append, Table.get?_cons]
    by_cases hname : field.name = name
    · subst hname
      rw [List.find?_cons_of_pos (by simp)] at hf
      cases hf
      rw [if_pos rfl]
    · rw [List.find?_cons_of_neg (by simpa using hname)] at hf
      rw [if_neg (by simpa using hname), ih hf]

/-- Who holds what stays the same. -/
theorem holding?_restored {v : Value} {g : Holding} (h : v.holding? = some g) :
    (restored Kind.ledgerEntry.shape v).holding? = some g := by
  obtain ⟨slots, rfl, hholder, hdenarii⟩ := Value.holding?_eq.1 h
  refine Value.holding?_eq.2 ⟨_, rfl, ?_, ?_⟩
  · rw [get?_restoredFields rfl, hholder]
    rfl
  · rw [get?_restoredFields rfl, hdenarii]
    rfl

/-- Assets pass their check with other entries in the ledger that say the same. -/
theorem checkWhole_of_holdings {slots slots' : List (Slot × Value)} {entries : List Value}
    {r : Value → Value} (hget : Table.get? (.field "cash_ledger") slots = some (.list entries))
    (hget' : Table.get? (.field "cash_ledger") slots' = some (.list (entries.map r)))
    (hsame : ∀ e ∈ entries, ∃ g, e.holding? = some g ∧ (r e).holding? = some g)
    (hflaw : Ledger.flaw? (.entity .assets slots) = .ok none) :
    checkWhole .assets slots' = .accepted (.entity .assets slots') := by
  have hflaw' : Ledger.flaw? (.entity .assets slots') = .ok none := by
    rw [← hflaw]
    simp [Ledger.flaw?, Value.get, Value.field?, hget, hget', Value.iterate, Outcome.ok_bind,
      Ledger.flawAfter?_map hsame]
  rw [checkWhole]
  simp only [hflaw']

/-- Assets pass their check again. -/
theorem checkWhole_restored {v : Value} {slots : List (Slot × Value)}
    (h : Held Kind.assets.shape v) (hv : restored Kind.assets.shape v = .entity .assets slots) :
    checkWhole .assets slots = .accepted (.entity .assets slots) := by
  obtain ⟨d, -, hread⟩ := (held_iff (by simp [Kind.shape])).1 h
  obtain ⟨⟨before, ledger, rfl, hget, entries, rfl, hentries⟩, hflaw⟩ := isAssets_of_validate hread
  have hget' : Table.get? (.field "cash_ledger") slots =
      some (.list (entries.map (restored Kind.ledgerEntry.shape))) := by
    cases hv
    rw [get?_restoredFields rfl, hget]
    rfl
  refine checkWhole_of_holdings hget hget' (fun e he => ?_) hflaw
  obtain ⟨g, hg, -⟩ := hentries e he
  exact ⟨g, hg, holding?_restored hg⟩

/-! ### The kinds in a story -/

/-- A shape of lists, mappings and single values, and of entities that stand in a story. -/
def Storable : Shape → Prop
  | .list item => Storable item
  | .mapping item => Storable item
  | .optional inner => Storable inner
  | .record kind fields => kind.inStory = true ∧ kind ≠ .worldState ∧ fields = kind.fields
  | _ => True

/-- Fields in order with shapes that are. -/
def StorableFields (fields : Fields) : Prop := ∀ f ∈ fields, FieldRestores f ∧ Storable f.2

section Catalogue

variable {name : String} {shape : Shape} {rest : Fields}

theorem storableFields_cons {f : Field × Shape} :
    StorableFields (f :: rest) ↔ FieldRestores f ∧ Storable f.2 ∧ StorableFields rest := by
  rw [StorableFields, List.forall_mem_cons, and_assoc]
  rfl

@[simp] theorem storableFields_nil : StorableFields [] := by
  simp [StorableFields]

theorem held_self {v : Value} (hd : v.isDocument = true) (h : validate shape v = .accepted v) :
    Held shape v := .inl ⟨v, hd, h⟩

@[simp] theorem held_text (s : String) : Held .text (.text s) := held_self rfl rfl

@[simp] theorem held_number (n : Number) : Held .number (.number n) := held_self rfl rfl

@[simp] theorem held_int (n : Int) : Held .number (.int n) := held_number (.int n)

@[simp] theorem held_whole (n : Int) : Held .whole (.int n) := held_self rfl rfl

@[simp] theorem held_float (x : Float) : Held .real (.float x) := held_self rfl rfl

@[simp] theorem held_zero : Held .real (.int 0) := .inr ⟨rfl, rfl⟩

@[simp] theorem held_truth (b : Bool) : Held .truth (.bool b) := held_self rfl rfl

/-- An entity that may be left out is the one that an empty document gives. -/
theorem held_blank {kind : Kind} (h : kind ∈ Kind.leftOut) :
    Held kind.shape (Shape.blank kind kind.fields) := by
  refine .inl ⟨.mapping [], rfl, ?_⟩
  cases kind <;> first | rfl | exact absurd h (by decide)

theorem storableFields_plain {fallback : Option Value}
    (h : ∀ v, fallback = some v → Held shape v) :
    StorableFields (Shape.plain name shape fallback :: rest) ↔
      Storable shape ∧ StorableFields rest := by
  rw [storableFields_cons]
  exact and_iff_right ⟨rfl, .inl rfl, fun v hv => ⟨h v hv, rfl⟩⟩

@[simp] theorem storableFields_required : StorableFields (Shape.required name shape :: rest) ↔
    Storable shape ∧ StorableFields rest :=
  storableFields_plain (by simp)

@[simp] theorem storableFields_withDefault {v : Value} (h : Held shape v) :
    StorableFields (Shape.withDefault name shape v :: rest) ↔
      Storable shape ∧ StorableFields rest :=
  storableFields_plain (by rintro _ ⟨⟩; exact h)

@[simp] theorem storableFields_nullable : StorableFields (Shape.nullable name shape :: rest) ↔
    Storable shape ∧ StorableFields rest :=
  storableFields_plain (by rintro _ ⟨⟩; exact held_self rfl rfl)

@[simp] theorem storableFields_many : StorableFields (Shape.many name shape :: rest) ↔
    Storable shape ∧ StorableFields rest :=
  storableFields_plain (by rintro _ ⟨⟩; exact held_self rfl rfl)

@[simp] theorem storableFields_named : StorableFields (Shape.named name shape :: rest) ↔
    Storable shape ∧ StorableFields rest :=
  storableFields_plain (by rintro _ ⟨⟩; exact held_self rfl rfl)

@[simp] theorem storableFields_part {kind : Kind} {fields : Fields} (h : kind ∈ Kind.leftOut) :
    StorableFields (Shape.part name kind fields :: rest) ↔
      Storable (.record kind fields) ∧ StorableFields rest := by
  constructor
  · exact fun hpart => (storableFields_cons.1 hpart).2
  · rintro ⟨hshape, hrest⟩
    obtain rfl : fields = kind.fields := hshape.2.2
    refine (storableFields_plain ?_).2 ⟨hshape, hrest⟩
    rintro _ ⟨⟩
    exact held_blank h

@[simp] theorem storableFields_called {external : String} {f : Field × Shape}
    (h : StorableFields [f]) :
    StorableFields (Shape.called external f :: rest) ↔ StorableFields rest := by
  obtain ⟨⟨-, hrule, hfallback⟩, hshape, -⟩ := storableFields_cons.1 h
  rw [storableFields_cons]
  exact (and_iff_right ⟨rfl, hrule, hfallback⟩).trans (and_iff_right hshape)

theorem storableFields_ruled {rule : Rule} {v : Value} (hrule : rule.keeps = true)
    (hshape : shape = .real ∨ shape = .number) (h : Held shape v)
    (hcheck : rule.check v = .accepted v) :
    StorableFields (Shape.ruled rule (Shape.withDefault name shape v) :: rest) ↔
      Storable shape ∧ StorableFields rest := by
  rw [storableFields_cons]
  exact and_iff_right ⟨rfl, .inr ⟨hrule, hshape⟩, by rintro _ ⟨⟩; exact ⟨h, hcheck⟩⟩

theorem check_half : Rule.unitInterval.check (.float 0.5) = .accepted (.float 0.5) := by
  have hlow : (Number.int 0).atMost (.float 0.5) = true := by decide +kernel
  have hhigh : (Number.float 0.5).atMost (.int 1) = true := by decide +kernel
  rw [Value.float, Rule.check, hlow, hhigh]
  rfl

theorem check_zeroBalance : Rule.balance.check (.int 0) = .accepted (.int 0) := by
  have hfinite : (Number.int 0).finite? = some true := by decide +kernel
  have hleast : (Number.int 0).atMost (.int 0) = true := by decide +kernel
  simp [Value.int, Rule.check, Rule.checkBalance, hfinite, hleast]

/-- The fields of every kind in a story are in order. -/
theorem storableFields_kind {kind : Kind} (h : kind.inStory = true) :
    StorableFields kind.fields := by
  -- The lemmas above are one for each way to declare a field; simp goes along the list with them.
  cases kind
  all_goals first
    | exact absurd h (by decide)
    | simp [Kind.fields, Kind.inStory, Storable, Fields.worldState, Fields.world,
        Fields.worldTime, Fields.location, Fields.faction, Fields.characterStatus, Fields.belief,
        Fields.desire, Fields.intention, Fields.mind, Fields.voice, Fields.character,
        Fields.relationship, Fields.secretStats, Fields.secretDecay, Fields.secret,
        Fields.ledgerEntry, Fields.network, Fields.office, Fields.contract, Fields.grainAsset,
        Fields.assets, Fields.threadCadence, Fields.thread, Fields.constraintRule,
        Fields.constraints, storableFields_ruled rfl (.inl rfl) (held_float _) check_half,
        storableFields_ruled rfl (.inr rfl) (held_int _) check_zeroBalance]

end Catalogue

theorem nodup_names (kind : Kind) : (kind.fields.map fun f => f.1.name).Nodup := by
  cases kind <;> decide

theorem nodup_externals (kind : Kind) : (kind.fields.map fun f => f.1.external).Nodup := by
  cases kind <;> decide

theorem inOrder_kind {kind : Kind} (h : kind.inStory = true) : InOrder kind.fields :=
  ⟨nodup_names kind, nodup_externals kind, fun f hf => (storableFields_kind h f hf).1⟩

theorem unknown_of_inStory {kind : Kind} (h : kind.inStory = true) : kind.unknown = .keep := by
  cases kind <;> first | rfl | cases h

/-- A declared field of an entity that was read holds what it can hold. -/
theorem get_of_held {kind : Kind} (name : String) {f : Field × Shape} {v : Value}
    (hkind : kind.inStory = true) (hf : kind.field? name = some f) (h : Held kind.shape v) :
    ∃ x, v.get name = .ok x ∧ Held f.2 x := by
  obtain ⟨value, extra, hentity, rfl, -⟩ :=
    heldEntity_of_validate (inOrder_kind hkind) (unknown_of_inStory hkind) h
  have hmem := List.mem_of_find?_eq_some hf
  obtain rfl : f.1.name = name := by simpa using List.find?_some hf
  have hget : Table.get? (.field f.1.name) (declaredSlots kind.fields value ++ extraSlots extra) =
      some (value f) := get?_declaredSlots (inOrder_kind hkind) hmem _
  exact ⟨value f, by simp [Value.get, Value.field?, hget], (hentity.held f hmem).1⟩

/-! ### Properties of what was read -/

/-- A property of what stands under shapes, of all documents, that lists, mappings and entities have
if what they hold does. -/
structure ClosedUnderReading (P : Shape → Value → Prop) : Prop where
  document : ∀ {shape v}, v.isDocument = true → P shape v
  list : ∀ {item xs}, (∀ x ∈ xs, P item x) → P (.list item) (.list xs)
  mapping : ∀ {item es}, (Table.keys es).Nodup → (∀ e ∈ es, P item e.2) →
    P (.mapping item) (.mapping es)
  optional : ∀ {inner v}, P inner v → P (.optional inner) v
  entity : ∀ {kind : Kind} {value : Field × Shape → Value} {extra}, kind.inStory = true →
    HeldEntity kind.fields value extra → (∀ f ∈ kind.fields, P f.2 (value f)) →
      P kind.shape (.entity kind (declaredSlots kind.fields value ++ extraSlots extra))

namespace ClosedUnderReading

variable {P : Shape → Value → Prop}

/-- An entity that was read has the property if what its fields can hold has. -/
theorem of_fields (hP : ClosedUnderReading P) {kind : Kind} (hkind : kind.inStory = true)
    (hfields : ∀ f ∈ kind.fields, ∀ v, Held f.2 v → P f.2 v) {v : Value}
    (h : Held kind.shape v) : P kind.shape v := by
  obtain ⟨value, extra, hentity, rfl, -⟩ :=
    heldEntity_of_validate (inOrder_kind hkind) (unknown_of_inStory hkind) h
  exact hP.entity hkind hentity fun f hf => hfields f hf _ (hentity.held f hf).1

mutual

theorem of_held (hP : ClosedUnderReading P) :
    ∀ shape, Storable shape → ∀ v, Held shape v → P shape v
  | .any, _, v, h => hP.document (isDocument_of_held rfl h)
  | .text, _, v, h => hP.document (isDocument_of_held rfl h)
  | .whole, _, v, h => hP.document (isDocument_of_held rfl h)
  | .real, _, v, h => hP.document (isDocument_of_held rfl h)
  | .truth, _, v, h => hP.document (isDocument_of_held rfl h)
  | .number, _, v, h => hP.document (isDocument_of_held rfl h)
  | .choice _, _, v, h => hP.document (isDocument_of_held rfl h)
  | .list item, hs, v, h => by
    obtain ⟨xs, rfl, hxs⟩ := held_list h
    exact hP.list fun x hx => hP.of_held item hs x (hxs x hx)
  | .mapping item, hs, v, h => by
    obtain ⟨es, rfl, hkeys, hes⟩ := held_mapping h
    exact hP.mapping hkeys fun e he => hP.of_held item hs e.2 (hes e he)
  | .optional inner, hs, v, h => by
    by_cases hv : v = .null
    · subst hv
      exact hP.document rfl
    · exact hP.optional (hP.of_held inner hs v (held_optional hv h))
  | .record kind fields, ⟨hkind, _, heq⟩, v, h => by
    have hfields := hP.of_heldFields fields (heq ▸ storableFields_kind hkind)
    subst heq
    exact hP.of_fields hkind hfields h

theorem of_heldFields (hP : ClosedUnderReading P) :
    ∀ fields, StorableFields fields → ∀ f ∈ fields, ∀ v, Held f.2 v → P f.2 v
  | [], _ => by simp
  | (f, shape) :: rest, h => by
    rw [StorableFields, List.forall_mem_cons] at h
    rw [List.forall_mem_cons]
    exact ⟨hP.of_held shape h.1.2, hP.of_heldFields rest h.2⟩

end

/-- What was read as a kind of a story has the property. -/
theorem of_kind (hP : ClosedUnderReading P) {kind : Kind} (hkind : kind.inStory = true) {v : Value}
    (h : Held kind.shape v) : P kind.shape v :=
  hP.of_fields hkind (hP.of_heldFields _ (storableFields_kind hkind)) h

/-- So has what was read for a field of one. -/
theorem of_field (hP : ClosedUnderReading P) {kind : Kind} (hkind : kind.inStory = true)
    {f : Field × Shape} (hf : f ∈ kind.fields) {v : Value} (h : Held f.2 v) : P f.2 v :=
  hP.of_held f.2 (storableFields_kind hkind f hf).2 v h

end ClosedUnderReading

/-! ### Shapes in order -/

/-- An entity in a story is restored if its fields are; that its parts come wrapped can only be said
of the whole story. -/
theorem restores_kind {kind : Kind} (h : kind.inStory = true) (hroot : kind ≠ .worldState)
    (hfields : ∀ f ∈ kind.fields, Restores f.2) : Restores kind.shape := by
  refine Restores.record (inOrder_kind h) (unknown_of_inStory h) hfields
    (fun _ _ _ es _ _ _ => prepare_of_ne hroot es) fun v slots hv hr => ?_
  by_cases hkind : kind = .assets
  · subst hkind
    exact checkWhole_restored hv hr
  · exact checkWhole_of_ne hkind _

mutual

/-- Values of a shape in order are read again from what they are stored as. -/
theorem restores_of_storable : ∀ shape, Storable shape → Restores shape
  | .any, _ => restores_any
  | .text, _ => restores_text
  | .whole, _ => restores_whole
  | .real, _ => restores_real
  | .truth, _ => restores_truth
  | .number, _ => restores_number
  | .choice options, _ => restores_choice options
  | .list item, h => (restores_of_storable item h).list
  | .mapping item, h => (restores_of_storable item h).mapping
  | .optional inner, h => (restores_of_storable inner h).optional
  | .record kind fields, ⟨hkind, hroot, heq⟩ => by
    have hfields := restores_of_storableFields fields (heq ▸ storableFields_kind hkind)
    subst heq
    exact restores_kind hkind hroot hfields

/-- Fields in order are read again from what they are stored as. -/
theorem restores_of_storableFields : ∀ fields, StorableFields fields → ∀ f ∈ fields, Restores f.2
  | [], _ => by simp
  | (f, shape) :: rest, h => by
    rw [StorableFields, List.forall_mem_cons] at h
    rw [List.forall_mem_cons]
    exact ⟨restores_of_storable shape h.1.2, restores_of_storableFields rest h.2⟩

end

end Schema

end StoryWorld
