import StoryWorld.Proofs.Guarded

/-!
Where entities of a kind can stand.

A value is within some kinds if every entity anywhere in it is of one of them. What is read at a
step, put at a step, assigned or read as a shape stays within the kinds that its parts are within,
if the shapes of the kinds are. So assets and whole stories never come to stand in another root of a
story that a document gave.
-/

namespace StoryWorld

namespace Value

mutual

/-- Whether every entity in a value is of one of some kinds. -/
def within (ok : Kind → Bool) : Value → Bool
  | list xs => withinItems ok xs
  | mapping es => withinEntries ok es
  | entity kind slots => ok kind && withinSlots ok slots
  | _ => true

/-- Whether every item of a list is within some kinds. -/
def withinItems (ok : Kind → Bool) : List Value → Bool
  | [] => true
  | x :: xs => within ok x && withinItems ok xs

/-- Whether every value of a mapping is within some kinds. -/
def withinEntries (ok : Kind → Bool) : List (String × Value) → Bool
  | [] => true
  | (_, x) :: es => within ok x && withinEntries ok es

/-- Whether every slot of an entity is within some kinds. -/
def withinSlots (ok : Kind → Bool) : List (Slot × Value) → Bool
  | [] => true
  | (_, x) :: rest => within ok x && withinSlots ok rest

end

variable {ok : Kind → Bool}

theorem withinItems_iff {xs : List Value} :
    withinItems ok xs = true ↔ ∀ x ∈ xs, x.within ok = true := by
  induction xs with
  | nil => simp [withinItems]
  | cons x xs ih => simp [withinItems, ih]

theorem withinEntries_iff {es : List (String × Value)} :
    withinEntries ok es = true ↔ ∀ e ∈ es, e.2.within ok = true := by
  induction es with
  | nil => simp [withinEntries]
  | cons e es ih =>
    obtain ⟨k, x⟩ := e
    simp only [withinEntries, Bool.and_eq_true, ih, List.forall_mem_cons]

theorem withinSlots_iff {slots : List (Slot × Value)} :
    withinSlots ok slots = true ↔ ∀ e ∈ slots, e.2.within ok = true := by
  induction slots with
  | nil => simp [withinSlots]
  | cons e rest ih =>
    obtain ⟨s, x⟩ := e
    simp only [withinSlots, Bool.and_eq_true, ih, List.forall_mem_cons]

@[simp] theorem within_list {xs : List Value} :
    (list xs).within ok = true ↔ ∀ x ∈ xs, x.within ok = true := by
  rw [within, withinItems_iff]

@[simp] theorem within_mapping {es : List (String × Value)} :
    (mapping es).within ok = true ↔ ∀ e ∈ es, e.2.within ok = true := by
  rw [within, withinEntries_iff]

@[simp] theorem within_entity {kind : Kind} {slots : List (Slot × Value)} :
    (entity kind slots).within ok = true ↔
      ok kind = true ∧ ∀ e ∈ slots, e.2.within ok = true := by
  rw [within, Bool.and_eq_true, withinSlots_iff]

@[simp] theorem within_null : null.within ok = true := rfl

@[simp] theorem within_bool (b : Bool) : (bool b).within ok = true := rfl

@[simp] theorem within_number (n : Number) : (number n).within ok = true := rfl

@[simp] theorem within_text (s : String) : (text s).within ok = true := rfl

@[simp] theorem within_builtin (b : Builtin) : (builtin b).within ok = true := rfl

/-! ### Fields -/

theorem within_of_get? {κ : Type} [DecidableEq κ] {k : κ} {v : Value} {t : List (κ × Value)}
    (ht : ∀ e ∈ t, e.2.within ok = true) (h : Table.get? k t = some v) : v.within ok = true :=
  ht _ (Table.mem_of_get? h)

theorem within_put_table {κ : Type} [DecidableEq κ] {k : κ} {v : Value} {t : List (κ × Value)}
    (ht : ∀ e ∈ t, e.2.within ok = true) (hv : v.within ok = true) :
    ∀ e ∈ Table.put k v t, e.2.within ok = true := by
  intro e he
  rcases Table.mem_put he with rfl | he
  · exact hv
  · exact ht e he

theorem within_field? {v w : Value} {name : String} (hv : v.within ok = true)
    (h : v.field? name = some w) : w.within ok = true := by
  unfold field? at h
  split at h
  · exact within_of_get? (within_entity.1 hv).2 h
  · cases h

theorem within_get {v w : Value} {name : String} (hv : v.within ok = true)
    (h : v.get name = .ok w) : w.within ok = true := by
  unfold get at h
  split at h
  · obtain rfl := by simpa using h
    exact within_field? hv ‹_›
  · cases h

theorem within_field {v : Value} (name : String) (hv : v.within ok = true) :
    (v.field name).within ok = true := by
  unfold field
  cases h : v.field? name with
  | none => rfl
  | some w => exact within_field? hv h

theorem within_setField {v w : Value} {name : String} (hv : v.within ok = true)
    (hw : w.within ok = true) : (v.setField name w).within ok = true := by
  unfold setField
  split
  · rw [within_entity] at hv ⊢
    exact ⟨hv.1, within_put_table hv.2 hw⟩
  · exact hv

theorem within_items {v : Value} (hv : v.within ok = true) : ∀ x ∈ v.items, x.within ok = true := by
  unfold items
  split
  · exact within_list.1 hv
  · simp

/-! ### Steps -/

theorem within_relevance {v w : Value} (hv : v.within ok = true) (h : relevance v = .ok w) :
    w.within ok = true := by
  obtain ⟨stats, hs, h⟩ := Outcome.bind_ok.1 h
  obtain ⟨legal, hl, h⟩ := Outcome.bind_ok.1 h
  obtain ⟨damage, hd, h⟩ := Outcome.bind_ok.1 h
  have hstats := within_get hv hs
  have hlegal := within_get hstats hl
  have hdamage := within_get hstats hd
  unfold plus at h
  split at h
  · obtain rfl := by simpa using h
    rfl
  · obtain rfl := by simpa using h
    rw [within_list] at hlegal hdamage ⊢
    intro x hx
    rcases List.mem_append.1 hx with hx | hx
    · exact hlegal x hx
    · exact hdamage x hx
  · split at h
    · obtain ⟨n, -, rfl⟩ := Outcome.map_ok.1 h
      rfl
    · cases h

theorem within_computed {v w : Value} {name : String} (hv : v.within ok = true)
    (h : computed v name = .ok w) : w.within ok = true := by
  have hcompute : ∀ w, compute name v = .ok w → w.within ok = true := by
    intro w h
    unfold compute at h
    split at h
    · obtain ⟨s, -, rfl⟩ := Outcome.map_ok.1 h
      rfl
    · split at h
      · exact within_relevance hv h
      · obtain ⟨b, -, rfl⟩ := Outcome.map_ok.1 h
        rfl
  unfold computed at h
  split at h
  · rename_i x _ hx
    obtain rfl := by simpa using h
    unfold extra? at hx
    split at hx
    · exact within_of_get? (within_entity.1 hv).2 hx
    · cases hx
  · exact hcompute w h

theorem within_member {kind : Kind} {slots : List (Slot × Value)} {member : Member}
    {name other : String} (hm : kind.member? other = some member)
    (hs : ∀ e ∈ slots, e.2.within ok = true) : (member.value kind slots name).within ok = true := by
  cases member with
  | operation shared => rfl
  | given settable =>
    rw [Member.value]
    cases hget : Table.get? .given slots with
    | none => rfl
    | some v => exact within_of_get? hs hget
  | extras =>
    rw [Member.value, within_mapping]
    exact fun e he => hs _ (mem_extras.1 he)
  | own =>
    rw [Member.value, within_mapping]
    intro e he
    obtain ⟨s, hmem⟩ := mem_own he
    exact hs _ hmem
  | table entries =>
    rw [Member.value, within_mapping]
    have htable : entries = kind.settings ∨ entries = kind.fieldTable ∨ entries = [] := by
      unfold Kind.member? at hm
      split at hm
      · cases hm
      · repeat (split at hm; · cases hm)
        split at hm
        · exact .inl (by simpa using hm.symm)
        · split at hm
          · exact .inr (.inl (by simpa using hm.symm))
          · split at hm
            · exact .inr (.inr (by simpa using hm.symm))
            · repeat (split at hm; · cases hm)
              cases hm
    rcases htable with rfl | rfl | rfl
    · intro e he
      unfold Kind.settings at he
      split at he <;> simp at he
      · rcases he with rfl | rfl | rfl <;> rfl
      · rcases he with rfl | rfl <;> rfl
    · intro e he
      obtain ⟨f, -, rfl⟩ := List.mem_map.1 he
      rfl
    · simp

/-- What a step reads is within the kinds that the value is. -/
theorem within_read {v w : Value} {s : Step} (hv : v.within ok = true) (h : v.read s = .ok w) :
    w.within ok = true := by
  unfold read at h
  split at h
  · split at h
    · obtain rfl := by simpa using h
      exact within_of_get? (within_entity.1 hv).2 ‹_›
    · cases h
  · exact within_computed hv h
  · split at h
    · obtain rfl := by simpa using h
      exact within_member ‹_› (within_entity.1 hv).2
    · cases h
  · split at h
    · obtain rfl := by simpa using h
      exact within_of_get? (within_mapping.1 hv) ‹_›
    · cases h
  · split at h
    · rename_i hx
      obtain rfl := by simpa using h
      exact within_list.1 hv _ (List.mem_of_getElem? hx)
    · cases h
  · cases h

theorem within_follow : ∀ {steps : List Step} {v w : Value}, v.within ok = true →
    v.follow steps = .ok w → w.within ok = true
  | [], v, w, hv, h => by
    obtain rfl := by simpa [follow] using h
    exact hv
  | s :: rest, v, w, hv, h => by
    obtain ⟨u, hu, h⟩ := Outcome.bind_ok.1 h
    exact within_follow (within_read hv hu) h

theorem within_refill {picked : Slot → Bool} {slots : List (Slot × Value)}
    {es : List (String × Value)} (hs : ∀ e ∈ slots, e.2.within ok = true)
    (he : ∀ e ∈ es, e.2.within ok = true) :
    ∀ e ∈ refill picked slots es, e.2.within ok = true := by
  intro e hmem
  rcases mem_refill hmem with hmem | ⟨f, hf, heq⟩
  · exact hs e hmem
  · rw [← heq]
    exact he f hf

/-- What is put at a step adds no kinds but its own. -/
theorem within_put {v w : Value} {s : Step} (hv : v.within ok = true) (hw : w.within ok = true) :
    (v.put s w).within ok = true := by
  unfold put
  split
  · rw [within_entity] at hv ⊢
    exact ⟨hv.1, within_put_table hv.2 hw⟩
  · unfold putComputed
    split
    · rw [within_entity] at hv ⊢
      exact ⟨hv.1, within_put_table hv.2 hw⟩
    · exact hv
  · unfold putBuiltin
    split
    · rw [within_entity] at hv ⊢
      exact ⟨hv.1, within_refill hv.2 (within_mapping.1 hw)⟩
    · rw [within_entity] at hv ⊢
      exact ⟨hv.1, within_refill hv.2 (within_mapping.1 hw)⟩
    · rw [within_entity] at hv ⊢
      unfold putHeld
      split
      · exact ⟨hv.1, within_put_table hv.2 hw⟩
      · exact hv
    · exact hv
  · rw [within_mapping] at hv ⊢
    exact within_put_table hv hw
  · rw [within_list] at hv ⊢
    intro x hx
    rcases List.mem_or_eq_of_mem_set hx with hx | rfl
    · exact hv x hx
    · exact hw
  · exact hv

theorem within_putInside {v w : Value} {s : Step} (hv : v.within ok = true)
    (hw : w.within ok = true) : (v.putInside s w).within ok = true := by
  unfold putInside
  split
  · split
    · have hstats := within_field "stats" hv
      rw [within_list] at hw
      unfold shareItems
      refine within_setField hv (within_setField (within_setField hstats ?_) ?_)
      · exact within_list.2 fun x hx => hw x (List.mem_of_mem_take hx)
      · exact within_list.2 fun x hx => hw x (List.mem_of_mem_drop hx)
    · exact within_put hv hw
  · exact within_put hv hw

/-- What is put at the end of steps adds no kinds but its own. -/
theorem within_replace : ∀ {steps : List Step} {v w : Value}, v.within ok = true →
    w.within ok = true → (v.replace steps w).within ok = true
  | [], v, w, _, hw => hw
  | s :: rest, v, w, hv, hw => by
    unfold replace
    split
    · rename_i inner hread
      split
      · exact within_put hv hw
      · exact within_putInside hv (within_replace (within_read hv hread) hw)
    · exact hv

end Value

/-! ### Shapes -/

namespace Shape

mutual

/-- Whether a shape lets in entities of some kinds only, and its fallbacks too. -/
def within (ok : Kind → Bool) : Shape → Bool
  | .list item | .mapping item => within ok item
  | .optional inner => within ok inner
  | .record kind fields => ok kind && withinFields ok fields
  | _ => true

/-- Whether the fields of an entity let in entities of some kinds only. -/
def withinFields (ok : Kind → Bool) : List (Field × Shape) → Bool
  | [] => true
  | (f, shape) :: rest =>
    within ok shape && f.fallback.all (Value.within ok) && withinFields ok rest

end

theorem within_of_mem {ok : Kind → Bool} {fields : List (Field × Shape)} {f : Field × Shape}
    (h : withinFields ok fields = true) (hf : f ∈ fields) : f.2.within ok = true := by
  induction fields with
  | nil => cases hf
  | cons g rest ih =>
    rw [withinFields, Bool.and_eq_true, Bool.and_eq_true] at h
    rcases List.mem_cons.1 hf with rfl | hf
    · exact h.1.1
    · exact ih h.2 hf

end Shape

namespace Schema

variable {ok : Kind → Bool}

theorem within_trimmedTexts : ∀ {xs : List Value}, (∀ x ∈ xs, x.within ok = true) →
    ∀ x ∈ Rule.trimmedTexts xs, x.within ok = true
  | [], _ => by simp [Rule.trimmedTexts]
  | y :: rest, h => by
    have hrest := within_trimmedTexts fun x hx => h x (List.mem_cons_of_mem _ hx)
    cases y with
    | text s =>
      simp only [Rule.trimmedTexts]
      split
      · exact hrest
      · intro x hx
        rcases List.mem_cons.1 hx with rfl | hx
        · rfl
        · exact hrest x hx
    | _ =>
      intro x hx
      rcases List.mem_cons.1 hx with rfl | hx
      · exact h _ List.mem_cons_self
      · exact hrest x hx

/-- A rule lets no other entities in than its field has. -/
theorem within_check {r : Rule} {v w : Value} (hv : v.within ok = true)
    (h : r.check v = .accepted w) : w.within ok = true := by
  have hsplit : ∀ {c : Prop} [Decidable c] {x : Value} {p : Complaint}, x.within ok = true →
      (if c then Verdict.accepted x else .reject p) = .accepted w → w.within ok = true := by
    intro c _ x p hx h
    split at h
    · obtain rfl := by simpa using h
      exact hx
    · cases h
  unfold Rule.check at h
  split at h
  · exact hsplit rfl h
  · split at h
    · cases h
    · split at h
      · cases h
      · obtain rfl := by simpa using h
        rfl
  · unfold Rule.checkBalance at h
    split at h
    · cases h
    · exact hsplit rfl h
  · exact hsplit rfl h
  · split at h
    · obtain rfl := by simpa using h
      rfl
    · cases h
  · simp only at h
    split at h
    · cases h
    · obtain rfl := by simpa using h
      rw [Value.within_list] at hv ⊢
      exact within_trimmedTexts hv
  · obtain rfl := by simpa using h
    exact hv

theorem within_prepare {r : Rule} {v : Value} (hv : v.within ok = true) :
    (r.prepare v).within ok = true := by
  unfold Rule.prepare
  split
  · rw [Value.within_list] at hv ⊢
    intro x hx
    obtain ⟨y, hy, rfl⟩ := List.mem_map.1 hx
    unfold Rule.wrapExpression
    split
    · simp
    · exact hv y hy
  · exact hv

theorem within_prepareEntries {kind : Kind} {es : List (String × Value)}
    (he : ∀ e ∈ es, e.2.within ok = true) : ∀ e ∈ prepare kind es, e.2.within ok = true :=
  forall_prepare (p := fun v => v.within ok = true)
    (fun _ _ hv => Value.within_mapping.1 hv _ List.mem_cons_self) he

theorem within_unknownSlots {kind : Kind} {rest : List (String × Value)}
    {slots : List (Slot × Value)} (hr : ∀ e ∈ rest, e.2.within ok = true)
    (h : unknownSlots kind rest = .accepted slots) : ∀ e ∈ slots, e.2.within ok = true := by
  unfold unknownSlots at h
  split at h
  · obtain rfl := by simpa using h
    intro e he
    obtain ⟨f, hf, rfl⟩ := List.mem_map.1 he
    exact hr f hf
  · obtain rfl := by simpa using h
    simp
  · split at h
    · obtain rfl := by simpa using h
      simp
    · cases h

mutual

/-- What is read as a shape is within the kinds that the shape and the value are within. -/
theorem within_validate : ∀ (shape : Shape) {v w : Value}, shape.within ok = true →
    v.within ok = true → validate shape v = .accepted w → w.within ok = true
  | .any, v, w, _, hv, h => by
    obtain rfl := by simpa [validate] using h
    exact hv
  | .text, v, w, _, _, h => by
    unfold validate at h
    split at h
    · obtain rfl := by simpa using h
      rfl
    · cases h
  | .whole, v, w, _, _, h => by
    unfold validate at h
    obtain ⟨n, -, rfl⟩ := Verdict.map_accepted.1 h
    rfl
  | .real, v, w, _, _, h => by
    unfold validate at h
    obtain ⟨x, -, rfl⟩ := Verdict.map_accepted.1 h
    rfl
  | .truth, v, w, _, _, h => by
    unfold validate at h
    obtain ⟨b, -, rfl⟩ := Verdict.map_accepted.1 h
    rfl
  | .number, v, w, _, _, h => by
    unfold validate at h
    obtain ⟨n, -, rfl⟩ := Verdict.map_accepted.1 h
    rfl
  | .choice options, v, w, _, _, h => by
    unfold validate at h
    split at h
    · split at h
      · obtain rfl := by simpa using h
        rfl
      · cases h
    · cases h
  | .list item, v, w, hs, hv, h => by
    unfold validate at h
    split at h
    · obtain ⟨ys, hys, rfl⟩ := Verdict.map_accepted.1 h
      rw [Value.within_list] at hv ⊢
      intro y hy
      obtain ⟨x, hx, hread⟩ := readItems_accepted hys y hy
      exact within_validate item (by simpa [Shape.within] using hs) (hv x hx) hread
    · cases h
  | .mapping item, v, w, hs, hv, h => by
    unfold validate at h
    split at h
    · obtain ⟨fs, hfs, rfl⟩ := Verdict.map_accepted.1 h
      rw [Value.within_mapping] at hv ⊢
      intro f hf
      obtain ⟨e, he, hread⟩ := readEntries_accepted hfs f hf
      exact within_validate item (by simpa [Shape.within] using hs) (hv e he) hread
    · cases h
  | .optional inner, v, w, hs, hv, h => by
    unfold validate at h
    split at h
    · obtain rfl := by simpa using h
      rfl
    · exact within_validate inner (by simpa [Shape.within] using hs) hv h
  | .record kind fields, v, w, hs, hv, h => by
    obtain ⟨es, slots, extra, rfl, hslots, hextra, hw⟩ := record_accepted h
    rw [Shape.within, Bool.and_eq_true] at hs
    have hes : ∀ e ∈ prepare kind es, e.2.within ok = true :=
      within_prepareEntries (Value.within_mapping.1 hv)
    rw [eq_of_checkWhole hw, Value.within_entity]
    refine ⟨hs.1, fun e he => ?_⟩
    rcases List.mem_append.1 he with he | he
    · exact within_validateFields fields hs.2 hes hslots e he
    · exact within_unknownSlots (fun e he => hes e (List.mem_filter.1 he).1) hextra e he

/-- So are the slots of an entity that was read. -/
theorem within_validateFields : ∀ (fields : List (Field × Shape)) {es : List (String × Value)}
    {slots : List (Slot × Value)}, Shape.withinFields ok fields = true →
    (∀ e ∈ es, e.2.within ok = true) → validateFields fields es = .accepted slots →
    ∀ e ∈ slots, e.2.within ok = true
  | [], es, slots, _, _, h => by
    obtain rfl : [] = slots := by simpa [validateFields] using h
    simp
  | (f, shape) :: rest, es, slots, hs, hes, h => by
    rw [Shape.withinFields, Bool.and_eq_true, Bool.and_eq_true] at hs
    unfold validateFields at h
    obtain ⟨v, vs, hv, hvs, rfl⟩ := Verdict.both_accepted.1 h
    intro e he
    rcases List.mem_cons.1 he with rfl | he
    · simp only
      split at hv
      · rename_i hgiven
        obtain ⟨u, hu, hcheck⟩ := Verdict.andThen_accepted.1 (Verdict.under_accepted.1 hv)
        refine within_check (within_validate shape hs.1.1 (within_prepare ?_) hu) hcheck
        exact hes _ (mem_of_given? hgiven)
      · split at hv
        · rename_i hfallback
          obtain rfl := by simpa using hv
          simpa [hfallback] using hs.1.2
        · cases hv
    · exact within_validateFields rest hs.2 hes hvs e he

end

/-- What a field admits of values within some kinds is within them. -/
theorem within_admitted {f : Field} {shape : Shape} {v : Value} (hs : shape.within ok = true)
    (hf : f.fallback.all (Value.within ok) = true)
    (h : AdmitsFrom (fun u => u.within ok = true) f shape v) : v.within ok = true := by
  rcases h with h | ⟨u, hu, h⟩
  · simpa [h] using hf
  · obtain ⟨w, hw, hv⟩ := Verdict.andThen_accepted.1 h
    exact within_check (within_validate shape hs hu hw) hv

/-- So is a field of an entity that was read, if its shape and what it holds if nothing is given
are. -/
theorem within_field {kind : Kind} {fields : Fields} {v w : Value} {name : String} {f : Field}
    {shape : Shape} (h : validate (.record kind fields) v = .accepted w) (hv : v.within ok = true)
    (hf : fields.find? (fun g => g.1.name == name) = some (f, shape))
    (hshape : shape.within ok = true) (hfallback : f.fallback.all (Value.within ok) = true) :
    (w.field name).within ok = true := by
  obtain ⟨es, slots, extra, rfl, hslots, -, hwhole⟩ := record_accepted h
  have hprep : ∀ (r : Rule) (v : Value), v.within ok = true → (r.prepare v).within ok = true :=
    fun _ _ h => within_prepare h
  obtain ⟨x, hget, hadmitted⟩ := get?_validateFields hprep hslots
    (within_prepareEntries (Value.within_mapping.1 hv)) hf
  have hfield : w.field name = x := by
    rw [eq_of_checkWhole hwhole]
    simp [Value.field, Value.field?, Table.get?_append, hget]
  rw [hfield]
  exact within_admitted hshape hfallback hadmitted

end Schema

end StoryWorld
