import StoryWorld.Proofs.Restored

/-!
What is read again of a stored entity.

The document of an entity gives every declared field under its name in documents, so each field is
found there and read as what it held, and the other entries are the extra fields again. For that the
fields of a kind have to be in order: their names differ, each is stored under the name that counts
first, and what a field falls back to is something that it can hold.
-/

namespace StoryWorld

namespace Rule

/-- Whether a rule says no more of a value than whether it is let in. -/
def keeps : Rule → Bool
  | free | unitInterval | chance | balance | nonNegative => true
  | level | statNames | bareExpressions => false

theorem eq_of_checkBalance {n : Number} {w : Value} (h : checkBalance n = .accepted w) :
    w = .number n := by
  unfold checkBalance at h
  split at h
  · cases h
  · split at h <;> cases h
    rfl

theorem eq_of_check {r : Rule} (hr : r.keeps = true) {v w : Value}
    (h : r.check v = .accepted w) : w = v := by
  unfold check at h
  split at h
  · split at h <;> cases h
    rfl
  · split at h
    · cases h
    · split at h <;> cases h
      rfl
  · exact eq_of_checkBalance h
  · split at h <;> cases h
    rfl
  · cases hr
  · cases hr
  · cases h
    rfl

/-- A zero passes every rule that says no more. -/
theorem check_zero {r : Rule} (hr : r.keeps = true) :
    r.check (.float 0.0) = .accepted (.float 0.0) := by
  have hlow : (Number.int 0).atMost (.float 0.0) = true := by decide +kernel
  have hhigh : (Number.float 0.0).atMost (.int 1) = true := by decide +kernel
  have hfinite : (Number.float 0.0).finite? = some true := by decide +kernel
  cases r <;> simp_all [keeps, check, checkBalance, Value.float]

theorem prepare_eq {r : Rule} (hr : r.keeps = true) (v : Value) : r.prepare v = v := by
  cases r <;> first | cases hr; done | rfl

end Rule

namespace Schema

/-! ### Fields -/

/-- A declared field in order. -/
structure FieldRestores (f : Field × Shape) : Prop where
  first : f.1.accepted.head? = some f.1.external
  rule : f.1.rule = .free ∨ f.1.rule.keeps = true ∧ (f.2 = .real ∨ f.2 = .number)
  fallback : ∀ v, f.1.fallback = some v → Held f.2 v ∧ f.1.rule.check v = .accepted v

namespace FieldRestores

variable {f : Field × Shape} (h : FieldRestores f) {v : Value}
include h

theorem keeps : f.1.rule.keeps = true := by
  rcases h.rule with hfree | ⟨hkeeps, -⟩
  · rw [hfree]
    rfl
  · exact hkeeps

theorem held (ha : AdmitsFrom (fun d => d.isDocument = true) f.1 f.2 v) :
    Held f.2 v ∧ f.1.rule.check v = .accepted v := by
  rcases ha with hfallback | ⟨d, hd, hread⟩
  · exact h.fallback v hfallback
  · obtain ⟨u, hu, hv⟩ := Verdict.andThen_accepted.1 hread
    obtain rfl := Rule.eq_of_check h.keeps hv
    exact ⟨.inl ⟨d, hd, hu⟩, hv⟩

theorem check_restored (hv : Held f.2 v) (hcheck : f.1.rule.check v = .accepted v) :
    f.1.rule.check (restored f.2 v) = .accepted (restored f.2 v) := by
  rcases h.rule with hfree | ⟨hkeeps, hreal | hnumber⟩
  · rw [hfree]
    rfl
  · rw [hreal] at hv ⊢
    rcases held_real hv with ⟨x, rfl⟩ | rfl
    · exact hcheck
    · rw [restored_zero]
      exact Rule.check_zero hkeeps
  · rw [hnumber] at hv ⊢
    obtain ⟨d, -, hread⟩ := (held_iff (by simp)).1 hv
    unfold validate at hread
    obtain ⟨n, -, rfl⟩ := Verdict.map_accepted.1 hread
    exact hcheck

theorem given?_eq {es : List (String × Value)} (hget : Table.get? f.1.external es = some v) :
    given? f.1.accepted es = some (f.1.external, v) := by
  obtain ⟨rest, hrest⟩ := List.head?_eq_some_iff.1 h.first
  rw [given?, hrest, List.findSome?_cons, hget]
  rfl

/-- A field that a stored document gives is read as what it held. -/
theorem reads {saved : Value} {room : Nat} (hv : Held f.2 v)
    (hcheck : f.1.rule.check v = .accepted v) (hsaved : Saved room f.2 v saved) :
    (validate f.2 (f.1.rule.prepare saved.sorted)).andThen f.1.rule.check =
      .accepted (restored f.2 v) := by
  rw [Rule.prepare_eq h.keeps, hsaved.reads]
  exact h.check_restored hv hcheck

end FieldRestores

/-! ### The fields of a document -/

theorem validateFields_map {fields : Fields} {es : List (String × Value)}
    {u r : Field × Shape → Value}
    (hgiven : ∀ f ∈ fields, given? f.1.accepted es = some (f.1.external, u f))
    (hread : ∀ f ∈ fields, (validate f.2 (f.1.rule.prepare (u f))).andThen f.1.rule.check =
      .accepted (r f)) :
    validateFields fields es = .accepted (fields.map fun f => (.field f.1.name, r f)) := by
  induction fields with
  | nil => rfl
  | cons f rest ih =>
    rw [List.forall_mem_cons] at hgiven hread
    rw [validateFields, hgiven.1, ih hgiven.2 hread.2]
    simp only [hread.1]
    rfl

theorem leftOver_eq {fields : Fields} {es : List (String × Value)} {u : Field × Shape → Value}
    (hgiven : ∀ f ∈ fields, given? f.1.accepted es = some (f.1.external, u f)) :
    leftOver fields es =
      es.filter fun e => !(fields.map fun f => f.1.external).contains e.1 := by
  have htaken : (fields.filterMap fun f => (given? f.1.accepted es).map Prod.fst) =
      fields.map fun f => f.1.external := by
    rw [← List.filterMap_eq_map]
    exact List.filterMap_congr fun f hf => by rw [hgiven f hf]; rfl
  rw [leftOver, htaken]

/-! ### Entities that were read -/

/-- The entries of a document as the extra slots of an entity. -/
def extraSlots (es : List (String × Value)) : List (Slot × Value) :=
  es.map fun e => (.extra e.1, e.2)

/-- The slots of the declared fields, by what each holds. -/
def declaredSlots (fields : Fields) (value : Field × Shape → Value) : List (Slot × Value) :=
  fields.map fun f => (.field f.1.name, value f)

/-- An entity as it was read: each declared field holds what it can hold, and no extra field goes by
the name of a declared one. -/
structure HeldEntity (fields : Fields) (value : Field × Shape → Value)
    (extra : List (String × Value)) : Prop where
  held : ∀ f ∈ fields, Held f.2 (value f) ∧ f.1.rule.check (value f) = .accepted (value f)
  unique : (Table.keys extra).Nodup
  documents : ∀ e ∈ extra, e.2.isDocument = true
  fresh : ∀ f ∈ fields, f.1.external ∉ Table.keys extra

/-- The fields of an entity are in order: no two have the same name, inside or in documents. -/
structure InOrder (fields : Fields) : Prop where
  names : (fields.map fun f => f.1.name).Nodup
  externals : (fields.map fun f => f.1.external).Nodup
  restores : ∀ f ∈ fields, FieldRestores f

theorem keys_validateFields {fields : Fields} {es : List (String × Value)}
    {slots : List (Slot × Value)} (h : validateFields fields es = .accepted slots) :
    Table.keys slots = fields.map fun f => .field f.1.name := by
  induction fields generalizing slots with
  | nil =>
    cases h
    rfl
  | cons f rest ih =>
    unfold validateFields at h
    obtain ⟨v, vs, -, hvs, rfl⟩ := Verdict.both_accepted.1 h
    have hkeys := ih hvs
    simp only [Table.keys, List.map_cons] at hkeys ⊢
    rw [hkeys]

/-- An entity that was read notes what it is given. -/
theorem notes_of_validate {kind k : Kind} {fields : Fields} {v : Value} {slots : List (Slot × Value)}
    (h : validate (.record kind fields) v = .accepted (.entity k slots)) :
    Assign.notes slots = true := by
  obtain ⟨es, declared, extra, -, hdeclared, hextra, hwhole⟩ := record_accepted h
  obtain ⟨rfl, rfl⟩ := Value.entity.inj (eq_of_checkWhole hwhole)
  rw [Assign.notes, Bool.not_eq_true', Bool.eq_false_iff, Ne, Table.has_iff_mem, Table.keys,
    List.map_append, List.mem_append]
  rintro (hmem | hmem)
  · have hkeys := keys_validateFields hdeclared
    rw [Table.keys] at hkeys
    simp [hkeys] at hmem
  · unfold unknownSlots at hextra
    split at hextra
    · cases hextra
      simp at hmem
    · cases hextra
      simp at hmem
    · split at hextra
      · cases hextra
        simp at hmem
      · cases hextra

theorem keys_unwrapParts (es : List (String × Value)) :
    Table.keys (unwrapParts es) = Table.keys es := by
  induction es with
  | nil => rfl
  | cons e es ih =>
    simp only [Table.keys, unwrapParts, List.map_cons] at ih ⊢
    rw [ih]

/-- What is brought into form before it is read stays a document. -/
theorem documents_prepare {kind : Kind} {es : List (String × Value)}
    (hkeys : (Table.keys es).Nodup) (hes : ∀ e ∈ es, e.2.isDocument = true) :
    (Table.keys (prepare kind es)).Nodup ∧ ∀ e ∈ prepare kind es, e.2.isDocument = true := by
  refine ⟨?_, forall_prepare (p := fun v => v.isDocument = true)
    (fun _ _ hv => (Value.isDocument_mapping.1 hv).2 _ List.mem_cons_self) hes⟩
  unfold prepare
  split
  · rwa [keys_unwrapParts]
  · exact hkeys

theorem isDocument_prepare (r : Rule) {v : Value} (h : v.isDocument = true) :
    (r.prepare v).isDocument = true := by
  unfold Rule.prepare
  split
  · rw [Value.isDocument_list] at h
    rw [Value.isDocument_list, List.forall_mem_map]
    intro x hx
    unfold Rule.wrapExpression
    split
    · rw [Value.isDocument_mapping]
      exact ⟨by simp [Table.keys], by simp [Value.isDocument]⟩
    · exact h x hx
  · exact h

theorem InOrder.find? {fields : Fields} (h : InOrder fields) {f : Field × Shape}
    (hf : f ∈ fields) : fields.find? (fun g => g.1.name == f.1.name) = some f := by
  have hsome : (fields.find? fun g => g.1.name == f.1.name).isSome = true := by
    rw [List.find?_isSome]
    exact ⟨f, hf, by simp⟩
  obtain ⟨g, hg⟩ := Option.isSome_iff_exists.1 hsome
  have hname : g.1.name = f.1.name := by simpa using List.find?_some hg
  rw [hg, List.inj_on_of_nodup_map h.names (List.mem_of_find?_eq_some hg) hf hname]

theorem InOrder.nodup_slots {fields : Fields} (h : InOrder fields) :
    (fields.map fun f => Slot.field f.1.name).Nodup := by
  have hnames := h.names.map (f := Slot.field) fun _ _ => by simp
  rwa [List.map_map] at hnames

/-- The declared fields of an entity that was read hold what they can hold. -/
theorem held_of_validateFields {fields : Fields} {es : List (String × Value)}
    {slots : List (Slot × Value)} (horder : InOrder fields)
    (hes : ∀ e ∈ es, e.2.isDocument = true) (h : validateFields fields es = .accepted slots) :
    ∃ value, slots = declaredSlots fields value ∧
      ∀ f ∈ fields, Held f.2 (value f) ∧ f.1.rule.check (value f) = .accepted (value f) := by
  have hkeys := keys_validateFields h
  refine ⟨fun f => (Table.get? (.field f.1.name) slots).getD .null, ?_, fun f hf => ?_⟩
  · have heq := Table.eq_map_keys (hkeys ▸ horder.nodup_slots) .null
    rw [hkeys, List.map_map] at heq
    exact heq
  · obtain ⟨x, hx, hadmits⟩ := @get?_validateFields (fun d => d.isDocument = true) _ _ _
      (fun r _ hd => isDocument_prepare r hd) _ _ _ h hes (horder.find? hf)
    have hvalue : (Table.get? (.field f.1.name) slots).getD .null = x :=
      congrArg (Option.getD · .null) hx
    simp only [hvalue]
    exact (horder.restores f hf).held hadmits

/-- An entity that was read from a document is as it was read. -/
theorem heldEntity_of_validate {kind : Kind} {fields : Fields} {v : Value}
    (horder : InOrder fields) (hkeep : kind.unknown = .keep) (h : Held (.record kind fields) v) :
    ∃ value extra, HeldEntity fields value extra ∧
      v = .entity kind (declaredSlots fields value ++ extraSlots extra) ∧
      checkWhole kind (declaredSlots fields value ++ extraSlots extra) = .accepted v := by
  obtain ⟨d, hd, hread⟩ := (held_iff (by simp)).1 h
  obtain ⟨es, slots, rest, rfl, hslots, hrest, hw⟩ := record_accepted hread
  rw [Value.isDocument_mapping] at hd
  obtain ⟨hkeys, hdocuments⟩ := documents_prepare hd.1 hd.2
  generalize prepare kind es = entries at *
  rw [unknownSlots, hkeep] at hrest
  cases hrest
  obtain ⟨value, rfl, hvalue⟩ := held_of_validateFields horder hdocuments hslots
  refine ⟨value, leftOver fields entries, ⟨hvalue, Table.nodup_keys_filter hkeys _,
    fun e he => hdocuments e (List.mem_of_mem_filter he), fun f hf hmem => ?_⟩,
    eq_of_checkWhole hw, hw⟩
  obtain ⟨⟨k, x⟩, he, hname⟩ := List.mem_map.1 hmem
  obtain ⟨hentry, htaken⟩ := List.mem_filter.1 he
  obtain rfl : k = f.1.external := hname
  have hgiven := (horder.restores f hf).given?_eq ((Table.get?_eq_some_iff hkeys).2 hentry)
  rw [Bool.not_eq_true', ← Bool.not_eq_true, List.contains_iff_mem] at htaken
  exact htaken (List.mem_filterMap.2 ⟨f, hf, by rw [hgiven]; rfl⟩)

/-! ### Entities that are stored -/

/-- The entries of the declared fields, each under its name in documents. -/
def declaredEntries (fields : Fields) (value : Field × Shape → Value) : List (String × Value) :=
  fields.map fun f => (f.1.external, value f)

/-- What the extra fields of an entity become. -/
def restoredExtra (extra : List (String × Value)) : List (String × Value) :=
  Table.sorted (extra.map fun e => (e.1, e.2.sorted))

section Storing

variable {kind : Kind} {fields : Fields} {value : Field × Shape → Value}
  {extra : List (String × Value)} {room : Nat}

theorem keys_declaredSlots : Table.keys (declaredSlots fields value ++ extraSlots extra) =
    fields.map (fun f => Slot.field f.1.name) ++ (Table.keys extra).map Slot.extra := by
  rw [Table.keys, Table.keys, declaredSlots, extraSlots, List.map_append, List.map_map,
    List.map_map, List.map_map]
  rfl

theorem get?_declaredSlots (horder : InOrder fields) {f : Field × Shape} (hf : f ∈ fields)
    (rest : List (Slot × Value)) :
    Table.get? (.field f.1.name) (declaredSlots fields value ++ rest) = some (value f) := by
  have hkeys : (Table.keys (declaredSlots fields value)).Nodup := by
    rw [declaredSlots, Table.keys, List.map_map]
    exact horder.nodup_slots
  rw [Table.get?_append, (Table.get?_eq_some_iff hkeys).2 (List.mem_map.2 ⟨f, hf, rfl⟩)]
  rfl

theorem extras_declaredSlots (fields : Fields) (value : Field × Shape → Value)
    (extra : List (String × Value)) :
    Value.extras (declaredSlots fields value ++ extraSlots extra) = extra := by
  induction fields with
  | nil =>
    show Value.extras (extraSlots extra) = extra
    induction extra with
    | nil => rfl
    | cons e rest ih => exact congrArg (e :: ·) ih
  | cons f rest ih => exact ih

theorem storedFields_ok {slots : List (Slot × Value)} {es : List (String × Value)}
    (hget : ∀ f ∈ fields, Table.get? (.field f.1.name) slots = some (value f)) :
    storedFields room fields slots = .ok es ↔
      (∀ f ∈ fields, ∃ w, storedIn room f.2 (value f) = .ok w) ∧
        es = declaredEntries fields fun f => kept room f.2 (value f) := by
  induction fields generalizing es with
  | nil => simp [storedFields, declaredEntries, eq_comm]
  | cons f rest ih =>
    rw [List.forall_mem_cons] at hget
    obtain ⟨field, shape⟩ := f
    rw [storedFields, hget.1, List.forall_mem_cons]
    simp only [Outcome.bind_ok, ih hget.2]
    constructor
    · rintro ⟨w, hw, ws, ⟨hall, rfl⟩, h⟩
      cases h
      refine ⟨⟨⟨w, hw⟩, hall⟩, ?_⟩
      rw [declaredEntries, declaredEntries, List.map_cons, kept, hw]
      rfl
    · rintro ⟨⟨hw, hall⟩, rfl⟩
      exact ⟨_, eq_kept hw, _, ⟨hall, rfl⟩, rfl⟩

/-- What an entity is stored as, by what its declared fields hold. -/
theorem storedIn_entity_ok {slots : List (Slot × Value)}
    (hget : ∀ f ∈ fields, Table.get? (.field f.1.name) slots = some (value f))
    (hextra : ∀ e ∈ Value.extras slots, e.2.isDocument = true) {w : Value} :
    storedIn room (.record kind fields) (.entity kind slots) = .ok w ↔
      (∀ f ∈ fields, ∃ w, storedIn (levelsUnder room kind) f.2 (value f) = .ok w) ∧
        (∀ e ∈ Value.extras slots, e.2.levels ≤ levelsUnder room kind) ∧
        w = .mapping (declaredEntries fields
          (fun f => kept (levelsUnder room kind) f.2 (value f)) ++ Value.extras slots) := by
  have hfreely : ∀ es,
      storedEntries (storedFreely (levelsUnder room kind)) (Value.extras slots) = .ok es ↔
        (∀ e ∈ Value.extras slots, e.2.levels ≤ levelsUnder room kind) ∧
          es = Value.extras slots := by
    intro es
    have hlevels : (∀ e ∈ Value.extras slots,
        ∃ w, storedFreely (levelsUnder room kind) e.2 = .ok w) ↔
          ∀ e ∈ Value.extras slots, e.2.levels ≤ levelsUnder room kind :=
      forall₂_congr fun e he => by simp [storedFreely_ok (hextra e he)]
    rw [storedEntries_ok, hlevels]
    refine and_congr_right fun hroom => ?_
    have hsame : (Value.extras slots).map
        (fun e => (e.1, (storedFreely (levelsUnder room kind) e.2).gotten)) =
          Value.extras slots := by
      refine (List.map_congr_left fun e he => ?_).trans (List.map_id' _)
      rw [(storedFreely_ok (hextra e he)).2 ⟨hroom e he, rfl⟩]
      rfl
    rw [hsame]
  rw [storedIn, if_pos rfl]
  simp only [Outcome.bind_ok, hfreely, storedFields_ok hget]
  constructor
  · rintro ⟨ds, ⟨hfields, rfl⟩, es, ⟨hlevels, rfl⟩, h⟩
    cases h
    exact ⟨hfields, hlevels, rfl⟩
  · rintro ⟨hfields, hlevels, rfl⟩
    exact ⟨_, ⟨hfields, rfl⟩, _, ⟨hlevels, rfl⟩, rfl⟩

theorem storedIn_record_ok (horder : InOrder fields)
    (hextra : ∀ e ∈ extra, e.2.isDocument = true) {w : Value} :
    storedIn room (.record kind fields)
        (.entity kind (declaredSlots fields value ++ extraSlots extra)) = .ok w ↔
      (∀ f ∈ fields, ∃ w, storedIn (levelsUnder room kind) f.2 (value f) = .ok w) ∧
        (∀ e ∈ extra, e.2.levels ≤ levelsUnder room kind) ∧
        w = .mapping (declaredEntries fields
          (fun f => kept (levelsUnder room kind) f.2 (value f)) ++ extra) := by
  have hextras := extras_declaredSlots fields value extra
  rw [storedIn_entity_ok (fun f hf => get?_declaredSlots horder hf _) (by rwa [hextras]), hextras]

/-- The keys of a stored entity differ. -/
theorem nodup_declaredEntries (horder : InOrder fields) (hunique : (Table.keys extra).Nodup)
    (hfresh : ∀ f ∈ fields, f.1.external ∉ Table.keys extra) (u : Field × Shape → Value) :
    (Table.keys (declaredEntries fields u ++ extra)).Nodup := by
  have hkeys : Table.keys (declaredEntries fields u) = fields.map fun f => f.1.external := by
    rw [declaredEntries, Table.keys, List.map_map]
    rfl
  rw [Table.keys, List.map_append, ← Table.keys, ← Table.keys, hkeys, List.nodup_append]
  refine ⟨horder.externals, hunique, ?_⟩
  rintro k hk l hl rfl
  obtain ⟨f, hf, rfl⟩ := List.mem_map.1 hk
  exact hfresh f hf hl

/-- Such a document gives every declared field under the name that counts first. -/
theorem given?_declaredEntries (horder : InOrder fields) (hunique : (Table.keys extra).Nodup)
    (hfresh : ∀ f ∈ fields, f.1.external ∉ Table.keys extra) (u : Field × Shape → Value)
    {f : Field × Shape} (hf : f ∈ fields) :
    given? f.1.accepted (Table.sorted (declaredEntries fields u ++ extra)) =
      some (f.1.external, u f) := by
  have hnodup := nodup_declaredEntries horder hunique hfresh u
  refine (horder.restores f hf).given?_eq ?_
  rw [← Table.get?_perm hnodup (Table.sorted_perm _).symm, Table.get?_eq_some_iff hnodup]
  exact List.mem_append_left _ (List.mem_map.2 ⟨f, hf, rfl⟩)

/-- A document that gives every declared field under its name is read field by field, and its other
entries are kept. -/
theorem validate_declaredEntries (horder : InOrder fields) (hkeep : kind.unknown = .keep)
    (hunique : (Table.keys extra).Nodup)
    (hfresh : ∀ f ∈ fields, f.1.external ∉ Table.keys extra) {u r : Field × Shape → Value}
    (hread : ∀ f ∈ fields, (validate f.2 (f.1.rule.prepare (u f))).andThen f.1.rule.check =
      .accepted (r f))
    (hprepare : prepare kind (Table.sorted (declaredEntries fields u ++ extra)) =
      Table.sorted (declaredEntries fields u ++ extra)) :
    validate (.record kind fields)
        (.mapping (Table.sorted (declaredEntries fields u ++ extra))) =
      checkWhole kind (declaredSlots fields r ++ extraSlots (Table.sorted extra)) := by
  have hnodup := nodup_declaredEntries horder hunique hfresh u
  have hgiven := fun f hf => given?_declaredEntries horder hunique hfresh u (f := f) hf
  have hleft : leftOver fields (Table.sorted (declaredEntries fields u ++ extra)) =
      Table.sorted extra := by
    have hdeclared : (declaredEntries fields u).filter
        (fun e => !(fields.map fun f => f.1.external).contains e.1) = [] := by
      rw [List.filter_eq_nil_iff, declaredEntries, List.forall_mem_map]
      intro f hf
      simp only [Bool.not_eq_true', Bool.not_eq_false, List.contains_iff_mem]
      exact List.mem_map.2 ⟨f, hf, rfl⟩
    have hextra : extra.filter (fun e => !(fields.map fun f => f.1.external).contains e.1) =
        extra := by
      rw [List.filter_eq_self]
      intro e he
      rw [Bool.not_eq_true', ← Bool.not_eq_true, List.contains_iff_mem]
      intro hmem
      obtain ⟨f, hf, hname⟩ := List.mem_map.1 hmem
      exact hfresh f hf (List.mem_map.2 ⟨e, he, hname.symm⟩)
    rw [leftOver_eq hgiven, Table.filter_sorted hnodup, List.filter_append, hdeclared, hextra,
      List.nil_append]
  rw [validate]
  simp only [hprepare, hleft, validateFields_map hgiven hread, unknownSlots, hkeep]
  rfl

/-- The levels that are left inside are one less at most. -/
theorem le_levelsUnder (room : Nat) (kind : Kind) : room ≤ levelsUnder room kind + 1 := by
  unfold levelsUnder
  split <;> omega

/-- What an entity becomes. -/
theorem restored_record (horder : InOrder fields) :
    restored (.record kind fields)
        (.entity kind (declaredSlots fields value ++ extraSlots extra)) =
      .entity kind (declaredSlots fields (fun f => restored f.2 (value f)) ++
        extraSlots (restoredExtra extra)) := by
  have hfields : ∀ (fs : Fields) (slots : List (Slot × Value)),
      (∀ f ∈ fs, Table.get? (.field f.1.name) slots = some (value f)) →
        restoredFields fs slots = declaredSlots fs fun f => restored f.2 (value f) := by
    intro fs slots
    induction fs with
    | nil => exact fun _ => rfl
    | cons f fs ih =>
      intro hget
      rw [List.forall_mem_cons] at hget
      obtain ⟨field, shape⟩ := f
      rw [restoredFields, hget.1, ih hget.2]
      rfl
  rw [restored, hfields fields _ fun f hf => get?_declaredSlots horder hf _, extras_declaredSlots]
  rfl

theorem sorted_declaredEntries (fields : Fields) (u : Field × Shape → Value)
    (extra : List (String × Value)) :
    (Value.mapping (declaredEntries fields u ++ extra)).sorted =
      .mapping (Table.sorted (declaredEntries fields (fun f => (u f).sorted) ++
        extra.map fun e => (e.1, e.2.sorted))) := by
  rw [Value.sorted_mapping, List.map_append, declaredEntries, List.map_map]
  rfl

end Storing

section Restoring

variable {kind : Kind} {fields : Fields} {value : Field × Shape → Value}
  {extra : List (String × Value)} {room : Nat}

theorem forall_declaredEntries {p : Value → Prop} :
    (∀ e ∈ declaredEntries fields value ++ extra, p e.2) ↔
      (∀ f ∈ fields, p (value f)) ∧ ∀ e ∈ extra, p e.2 := by
  rw [List.forall_mem_append, declaredEntries, List.forall_mem_map]

theorem forall_declaredSlots {p : Value → Prop} :
    (∀ e ∈ declaredSlots fields value ++ extraSlots extra, p e.2) ↔
      (∀ f ∈ fields, p (value f)) ∧ ∀ e ∈ extra, p e.2 := by
  rw [List.forall_mem_append, declaredSlots, List.forall_mem_map, extraSlots, List.forall_mem_map]

theorem mem_numbers_declaredEntries {n : Number} :
    n ∈ (Value.mapping (declaredEntries fields value ++ extra)).numbers ↔
      (∃ f ∈ fields, n ∈ (value f).numbers) ∨ ∃ e ∈ extra, n ∈ e.2.numbers := by
  simp only [Value.mem_numbers_mapping, declaredEntries, List.mem_append, or_and_right, exists_or,
    List.mem_map, exists_exists_and_eq_and]

theorem mem_numbers_declaredSlots {n : Number} :
    n ∈ (Value.entity kind (declaredSlots fields value ++ extraSlots extra)).numbers ↔
      (∃ f ∈ fields, n ∈ (value f).numbers) ∨ ∃ e ∈ extra, n ∈ e.2.numbers := by
  simp only [Value.mem_numbers_entity, declaredSlots, extraSlots, List.mem_append, or_and_right,
    exists_or, List.mem_map, exists_exists_and_eq_and]

theorem nesting_field {f : Field × Shape} (hf : f ∈ fields) :
    (value f).nesting <
      (Value.entity kind (declaredSlots fields value ++ extraSlots extra)).nesting :=
  Value.nesting_lt_entity (List.mem_append_left _
    (show (Slot.field f.1.name, value f) ∈ _ from List.mem_map.2 ⟨f, hf, rfl⟩))

theorem nesting_extra {e : String × Value} (he : e ∈ extra) :
    e.2.nesting <
      (Value.entity kind (declaredSlots fields value ++ extraSlots extra)).nesting :=
  Value.nesting_lt_entity (List.mem_append_right _
    (show (Slot.extra e.1, e.2) ∈ _ from List.mem_map.2 ⟨e, he, rfl⟩))

theorem isDocument_declaredEntries (horder : InOrder fields) (hunique : (Table.keys extra).Nodup)
    (hfresh : ∀ f ∈ fields, f.1.external ∉ Table.keys extra)
    (hvalue : ∀ f ∈ fields, (value f).isDocument = true)
    (hextra : ∀ e ∈ extra, e.2.isDocument = true) :
    (Value.mapping (declaredEntries fields value ++ extra)).isDocument = true := by
  rw [Value.isDocument_mapping, forall_declaredEntries (p := fun x => x.isDocument = true)]
  exact ⟨nodup_declaredEntries horder hunique hfresh value, hvalue, hextra⟩

theorem mem_restoredExtra {e : String × Value} (he : e ∈ restoredExtra extra) :
    ∃ f ∈ extra, e = (f.1, f.2.sorted) := by
  obtain ⟨f, hf, rfl⟩ := List.mem_map.1 (Table.mem_sorted.1 he)
  exact ⟨f, hf, rfl⟩

theorem keys_restoredExtra (extra : List (String × Value)) :
    (Table.keys (restoredExtra extra)).Perm (Table.keys extra) := by
  have hkeys : Table.keys (extra.map fun e => (e.1, e.2.sorted)) = Table.keys extra :=
    Table.keys_mapValues Value.sorted extra
  rw [← hkeys]
  exact Table.keys_perm (Table.sorted_perm _)

theorem map_restoredExtra (extra : List (String × Value)) :
    (restoredExtra extra).map (fun e => (e.1, e.2.sorted)) = restoredExtra extra := by
  rw [restoredExtra, Table.map_sorted, List.map_map]
  congr 1
  exact List.map_congr_left fun e _ => congrArg (Prod.mk e.1) (Value.sorted_sorted e.2)

section Entity

variable (horder : InOrder fields) (h : HeldEntity fields value extra)
  (hsaved : ∀ f ∈ fields, Saved room f.2 (value f) (kept room f.2 (value f)))
include horder h hsaved

/-- The stored form of an entity is read as what it becomes, if nothing stands against it. -/
theorem reads_record (hkeep : kind.unknown = .keep)
    (hprepare : ∀ es, (Value.mapping (declaredEntries fields
        (fun f => kept room f.2 (value f)) ++ extra)).sorted = .mapping es → prepare kind es = es)
    (hwhole : ∀ slots, restored (.record kind fields)
        (.entity kind (declaredSlots fields value ++ extraSlots extra)) = .entity kind slots →
      checkWhole kind slots = .accepted (.entity kind slots)) :
    validate (.record kind fields) (Value.mapping (declaredEntries fields
        (fun f => kept room f.2 (value f)) ++ extra)).sorted =
      .accepted (restored (.record kind fields)
        (.entity kind (declaredSlots fields value ++ extraSlots extra))) := by
  have hkeys : Table.keys (extra.map fun e => (e.1, e.2.sorted)) = Table.keys extra :=
    Table.keys_mapValues Value.sorted extra
  have hread := hprepare _ (sorted_declaredEntries _ _ _)
  rw [sorted_declaredEntries, validate_declaredEntries horder hkeep (hkeys ▸ h.unique)
    (fun f hf => hkeys ▸ h.fresh f hf)
    (fun f hf => (horder.restores f hf).reads (h.held f hf).1 (h.held f hf).2 (hsaved f hf))
    hread, restored_record horder]
  exact hwhole _ (restored_record horder)

/-- What an entity becomes is stored as it was, up to the order of keys. -/
theorem again_record (hroom : ∀ f ∈ fields, (value f).nesting < room)
    (hlevels : ∀ e ∈ extra, e.2.levels ≤ room) :
    (∀ f ∈ fields, ∃ w, storedIn room f.2 (restored f.2 (value f)) = .ok w) ∧
      (∀ e ∈ restoredExtra extra, e.2.isDocument = true ∧ e.2.levels ≤ room) ∧
      (Value.mapping (declaredEntries fields (fun f => kept room f.2 (restored f.2 (value f))) ++
        restoredExtra extra)).isDocument = true ∧
      (Value.mapping (declaredEntries fields (fun f => kept room f.2 (restored f.2 (value f))) ++
        restoredExtra extra)).sorted =
          (Value.mapping (declaredEntries fields (fun f => kept room f.2 (value f)) ++
            extra)).sorted := by
  have hagain := fun f hf => (hsaved f hf).kept_again (hroom f hf)
  have hextra : ∀ e ∈ restoredExtra extra, e.2.isDocument = true ∧ e.2.levels ≤ room := by
    intro e he
    obtain ⟨f, hf, rfl⟩ := mem_restoredExtra he
    exact ⟨Value.isDocument_sorted (h.documents f hf), Value.levels_sorted_le (hlevels f hf)⟩
  have hunique := (keys_restoredExtra extra).nodup_iff.2 h.unique
  have hfresh : ∀ f ∈ fields, f.1.external ∉ Table.keys (restoredExtra extra) := fun f hf => by
    rw [(keys_restoredExtra extra).mem_iff]
    exact h.fresh f hf
  -- The declared fields stand first as before; only the extra ones have changed their order.
  refine ⟨fun f hf => ⟨_, (hagain f hf).1⟩, hextra,
    isDocument_declaredEntries horder hunique hfresh (fun f hf => (hagain f hf).2.1)
      fun e he => (hextra e he).1, ?_⟩
  have hfields : declaredEntries fields (fun f => (kept room f.2 (restored f.2 (value f))).sorted) =
      declaredEntries fields fun f => (kept room f.2 (value f)).sorted :=
    List.map_congr_left fun f hf => congrArg (Prod.mk f.1.external) (hagain f hf).2.2
  rw [sorted_declaredEntries, sorted_declaredEntries, hfields, map_restoredExtra]
  congr 1
  exact Table.sorted_eq_of_perm (nodup_declaredEntries horder hunique hfresh _)
    ((Table.sorted_perm _).append_left _)

end Entity

/-- What an entity that was read is stored as. -/
theorem saved_record (horder : InOrder fields) (hkeep : kind.unknown = .keep)
    (hfields : ∀ f ∈ fields, Restores f.2) (h : HeldEntity fields value extra)
    (hok : ∀ f ∈ fields, ∃ w, storedIn (levelsUnder room kind) f.2 (value f) = .ok w)
    (hlevels : ∀ e ∈ extra, e.2.levels ≤ levelsUnder room kind)
    (hprepare : ∀ es, (Value.mapping (declaredEntries fields
        (fun f => kept (levelsUnder room kind) f.2 (value f)) ++ extra)).sorted = .mapping es →
      prepare kind es = es)
    (hwhole : ∀ slots, restored (.record kind fields)
        (.entity kind (declaredSlots fields value ++ extraSlots extra)) = .entity kind slots →
      checkWhole kind slots = .accepted (.entity kind slots)) :
    Saved room (.record kind fields)
      (.entity kind (declaredSlots fields value ++ extraSlots extra))
      (.mapping (declaredEntries fields
        (fun f => kept (levelsUnder room kind) f.2 (value f)) ++ extra)) := by
  have hsaved : ∀ f ∈ fields, Saved (levelsUnder room kind) f.2 (value f)
      (kept (levelsUnder room kind) f.2 (value f)) := fun f hf =>
    (hfields f hf).saved _ _ _ (h.held f hf).1 (eq_kept (hok f hf))
  refine ⟨?_, ?_, fun n hn => ?_, fun d => ?_, ?_, fun hroom => ?_⟩
  · exact isDocument_declaredEntries horder h.unique h.fresh
      (fun f hf => (hsaved f hf).document) h.documents
  · rw [restored_record horder]
    rintro (⟨⟨⟩⟩ | ⟨⟨⟩⟩)
  · rw [mem_numbers_declaredSlots]
    rcases mem_numbers_declaredEntries.1 hn with ⟨f, hf, hn⟩ | hn
    · exact ((hsaved f hf).numbers n hn).imp_left fun hn => .inl ⟨f, hf, hn⟩
    · exact .inl (.inr hn)
  · cases d with
    | zero => simp [Value.nesting]
    | succ d =>
      rw [Value.nesting_mapping_le, Value.nesting_entity_le,
        forall_declaredEntries (p := fun x => x.nesting ≤ d),
        forall_declaredSlots (p := fun x => x.nesting ≤ d)]
      exact and_congr_left' (forall₂_congr fun f hf => (hsaved f hf).nesting d)
  · exact reads_record horder h hsaved hkeep hprepare hwhole
  · have hunder : ∀ f ∈ fields, (value f).nesting < levelsUnder room kind := fun f hf => by
      have hnesting := @nesting_field kind fields value extra f hf
      have hlevel := le_levelsUnder room kind
      omega
    obtain ⟨hstored, hextra, hdocument, hsorted⟩ := again_record horder h hsaved hunder hlevels
    rw [restored_record horder]
    exact ⟨_, (storedIn_record_ok horder fun e he => (hextra e he).1).2
      ⟨hstored, fun e he => (hextra e he).2, rfl⟩, hdocument, hsorted⟩

/-- An entity is restored if its fields are, and if nothing stands against it as a whole: no part of
its stored form is unwrapped, and it passes its check again. -/
theorem Restores.record (horder : InOrder fields) (hkeep : kind.unknown = .keep)
    (hfields : ∀ f ∈ fields, Restores f.2)
    (hprepare : ∀ room v saved es, Held (.record kind fields) v →
      storedIn room (.record kind fields) v = .ok saved → saved.sorted = .mapping es →
        prepare kind es = es)
    (hwhole : ∀ v slots, Held (.record kind fields) v →
      restored (.record kind fields) v = .entity kind slots →
        checkWhole kind slots = .accepted (.entity kind slots)) :
    Restores (.record kind fields) where
  stores room v hv hroom := by
    obtain ⟨value, extra, h, rfl, -⟩ := heldEntity_of_validate horder hkeep hv
    have hunder := le_levelsUnder room kind
    refine ⟨_, (storedIn_record_ok horder h.documents).2 ⟨fun f hf => ?_, fun e he => ?_, rfl⟩⟩
    · have hnesting := @nesting_field kind fields value extra f hf
      exact (hfields f hf).stores _ _ (h.held f hf).1 (by omega)
    · have hnesting := @nesting_extra kind fields value extra e he
      have hlevels := Value.levels_le_of_nesting (le_refl e.2.nesting)
      omega
  saved room v saved hv hsaved := by
    obtain ⟨value, extra, h, rfl, -⟩ := heldEntity_of_validate horder hkeep hv
    obtain ⟨hok, hlevels, rfl⟩ := (storedIn_record_ok horder h.documents).1 hsaved
    exact saved_record horder hkeep hfields h hok hlevels
      (fun es hes => hprepare room _ _ es hv hsaved hes) (fun slots => hwhole _ slots hv)

end Restoring

end Schema

end StoryWorld
