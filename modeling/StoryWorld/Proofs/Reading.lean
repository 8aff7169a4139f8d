import StoryWorld.Story.Basic

/-!
What a reading that is accepted looks like.

A verdict that accepts comes from parts that accept. From that, each declared field of an entity
that was read holds either its fallback or something that was read as its shape and passed its
rule; that is all that later modules use of the reading.
-/

namespace StoryWorld

namespace Verdict

variable {α β γ : Type}

theorem map_accepted {f : α → β} {v : Verdict α} {b : β} :
    v.map f = .accepted b ↔ ∃ a, v = .accepted a ∧ f a = b := by
  cases v <;> simp [map]

theorem both_accepted {f : α → β → γ} {v : Verdict α} {w : Verdict β} {c : γ} :
    v.both f w = .accepted c ↔ ∃ a b, v = .accepted a ∧ w = .accepted b ∧ f a b = c := by
  cases v <;> cases w <;> simp [both]

theorem andThen_accepted {v : Verdict α} {f : α → Verdict β} {b : β} :
    v.andThen f = .accepted b ↔ ∃ a, v = .accepted a ∧ f a = .accepted b := by
  cases v <;> simp [andThen]

theorem under_accepted {place : String} {v : Verdict α} {a : α} :
    v.under place = .accepted a ↔ v = .accepted a := by
  cases v <;> simp [under]

theorem outcome_ok {kind : Kind} {v : Verdict α} {a : α} :
    v.outcome kind = .ok a ↔ v = .accepted a := by
  cases v <;> simp [outcome]

end Verdict

namespace Schema

/-- What a field can hold once its entity was read from values with a property. -/
def AdmitsFrom (given : Value → Prop) (f : Field) (shape : Shape) (v : Value) : Prop :=
  f.fallback = some v ∨ ∃ u, given u ∧ (validate shape u).andThen f.rule.check = .accepted v

/-- What a field can hold once its entity was read. -/
abbrev Admits (f : Field) (shape : Shape) (v : Value) : Prop := AdmitsFrom (fun _ => True) f shape v

/-- Each item that was accepted comes from one that was given. -/
theorem readItems_accepted {read : Value → Verdict Value} : ∀ {n : Nat} {xs ys : List Value},
    readItems read n xs = .accepted ys → ∀ y ∈ ys, ∃ x ∈ xs, read x = .accepted y
  | _, [], ys, h, y, hy => by
    obtain rfl : [] = ys := by simpa [readItems] using h
    cases hy
  | n, x :: xs, ys, h, y, hy => by
    obtain ⟨z, zs, hz, hzs, rfl⟩ := Verdict.both_accepted.1 h
    rcases List.mem_cons.1 hy with rfl | hy
    · exact ⟨x, List.mem_cons_self, Verdict.under_accepted.1 hz⟩
    · obtain ⟨w, hw, hr⟩ := readItems_accepted hzs y hy
      exact ⟨w, List.mem_cons_of_mem _ hw, hr⟩

/-- Each value of a mapping that was accepted comes from one that was given. -/
theorem readEntries_accepted {read : Value → Verdict Value} :
    ∀ {es fs : List (String × Value)}, readEntries read es = .accepted fs →
      ∀ f ∈ fs, ∃ e ∈ es, read e.2 = .accepted f.2
  | [], fs, h, f, hf => by
    obtain rfl : [] = fs := by simpa [readEntries] using h
    cases hf
  | (k, x) :: es, fs, h, f, hf => by
    obtain ⟨y, ys, hy, hys, rfl⟩ := Verdict.both_accepted.1 h
    rcases List.mem_cons.1 hf with rfl | hf
    · exact ⟨(k, x), List.mem_cons_self, Verdict.under_accepted.1 hy⟩
    · obtain ⟨e, he, hr⟩ := readEntries_accepted hys f hf
      exact ⟨e, List.mem_cons_of_mem _ he, hr⟩

/-! ### What is done before and after reading an entity -/

section Prepare

variable {p : Value → Prop} (hinside : ∀ k v, p (.mapping [(k, v)]) → p v)
include hinside

theorem unwrap_of {key : String} {v : Value} (h : p v) : p (unwrap key v) := by
  unfold unwrap
  split
  · split
    · exact hinside _ _ h
    · exact h
  · exact h

theorem forall_unwrapParts : ∀ {es : List (String × Value)}, (∀ e ∈ es, p e.2) →
    ∀ e ∈ unwrapParts es, p e.2
  | [], h => h
  | (name, v) :: rest, h => by
    rw [List.forall_mem_cons] at h
    rw [unwrapParts, List.forall_mem_cons]
    refine ⟨?_, forall_unwrapParts h.2⟩
    simp only
    split
    · exact unwrap_of hinside h.1
    · exact h.1

/-- A property of values that is one of what a mapping with one key holds is kept when a document is
brought into form. -/
theorem forall_prepare {kind : Kind} {es : List (String × Value)} (h : ∀ e ∈ es, p e.2) :
    ∀ e ∈ prepare kind es, p e.2 := by
  unfold prepare
  split
  · exact forall_unwrapParts hinside h
  · exact h

end Prepare

/-- Only the document of a whole story is brought into another form. -/
theorem prepare_of_ne {kind : Kind} (h : kind ≠ .worldState) (es : List (String × Value)) :
    prepare kind es = es := by
  unfold prepare
  split
  · exact absurd rfl h
  · rfl

/-- Only assets are checked as a whole. -/
theorem checkWhole_of_ne {kind : Kind} (h : kind ≠ .assets) (slots : List (Slot × Value)) :
    checkWhole kind slots = .accepted (.entity kind slots) := by
  unfold checkWhole
  split
  · exact absurd rfl h
  · rfl

/-- The check of an entity as a whole never changes it. -/
theorem eq_of_checkWhole {kind : Kind} {slots : List (Slot × Value)} {w : Value}
    (h : checkWhole kind slots = .accepted w) : w = .entity kind slots := by
  unfold checkWhole at h
  split at h
  · split at h <;> simp_all [Verdict.reject]
  · simpa using h.symm

/-- Assets that pass their check have a cash ledger without a flaw. -/
theorem flaw?_of_checkWhole {slots : List (Slot × Value)} {w : Value}
    (h : checkWhole .assets slots = .accepted w) : Ledger.flaw? w = .ok none := by
  have hw := eq_of_checkWhole h
  unfold checkWhole at h
  simp only at h
  split at h
  · rw [hw]; assumption
  · cases h

/-- An entity that was read comes from a mapping: its declared slots, then those of unknown
entries. -/
theorem record_accepted {kind : Kind} {fields : Fields} {v w : Value}
    (h : validate (.record kind fields) v = .accepted w) :
    ∃ es slots extra, v = .mapping es ∧
      validateFields fields (prepare kind es) = .accepted slots ∧
      unknownSlots kind (leftOver fields (prepare kind es)) = .accepted extra ∧
      checkWhole kind (slots ++ extra) = .accepted w := by
  unfold validate at h
  split at h
  · obtain ⟨all, hall, hw⟩ := Verdict.andThen_accepted.1 h
    obtain ⟨slots, extra, hs, he, rfl⟩ := Verdict.both_accepted.1 hall
    exact ⟨_, slots, extra, rfl, hs, he, hw⟩
  · cases h

/-- What a document gives under one of several names is one of its values. -/
theorem mem_of_given? {names : List String} {es : List (String × Value)} {e : String × Value}
    (h : given? names es = some e) : e ∈ es := by
  obtain ⟨name, -, h⟩ := List.exists_of_findSome?_eq_some h
  obtain ⟨v, hv, rfl⟩ := Option.map_eq_some_iff.1 h
  exact Table.mem_of_get? hv

/-- The slot of a declared field holds what the field admits. -/
theorem get?_validateFields {given : Value → Prop} {name : String} {f : Field} {shape : Shape}
    (hprep : ∀ (r : Rule) v, given v → given (r.prepare v)) :
    ∀ {fields : Fields} {es : List (String × Value)} {slots : List (Slot × Value)},
      validateFields fields es = .accepted slots → (∀ e ∈ es, given e.2) →
      fields.find? (fun g => g.1.name == name) = some (f, shape) →
      ∃ v, Table.get? (.field name) slots = some v ∧ AdmitsFrom given f shape v
  | [], _, _, _, _, hf => by simp at hf
  | (g, s) :: rest, es, slots, h, hes, hf => by
    unfold validateFields at h
    obtain ⟨v, vs, hv, hvs, rfl⟩ := Verdict.both_accepted.1 h
    by_cases hg : g.name = name
    · have hgs : g = f ∧ s = shape := by simpa [List.find?_cons, hg] using hf
      obtain ⟨rfl, rfl⟩ := hgs
      refine ⟨v, by simp [Table.get?, hg], ?_⟩
      split at hv
      · rename_i u hu
        exact .inr ⟨_, hprep _ _ (hes _ (mem_of_given? hu)), Verdict.under_accepted.1 hv⟩
      · split at hv
        · exact .inl (by simp_all)
        · cases hv
    · have hrest : rest.find? (fun g => g.1.name == name) = some (f, shape) := by
        simpa [List.find?_cons, hg] using hf
      obtain ⟨w, hw, ha⟩ := get?_validateFields hprep hvs hes hrest
      exact ⟨w, by simpa [Table.get?, hg] using hw, ha⟩

/-- An entity that was read is of its kind, and each declared field holds what it admits. -/
theorem read_field {kind : Kind} {fields : Fields} {v w : Value}
    (h : validate (.record kind fields) v = .accepted w) (name : String) {f : Field}
    {shape : Shape} (hf : fields.find? (fun g => g.1.name == name) = some (f, shape)) :
    ∃ slots x, w = .entity kind slots ∧ Table.get? (.field name) slots = some x ∧
      Admits f shape x := by
  obtain ⟨es, slots, extra, -, hs, -, hw⟩ := record_accepted h
  have hget : ∃ x, Table.get? (.field name) slots = some x ∧ Admits f shape x :=
    get?_validateFields (fun _ _ h => h) hs (fun _ _ => trivial) hf
  obtain ⟨x, hx, ha⟩ := hget
  exact ⟨slots ++ extra, x, eq_of_checkWhole hw, by rw [Table.get?_append, hx]; rfl, ha⟩

/-- A list that was read holds what was read of its items. -/
theorem list_accepted {item : Shape} {v w : Value} (h : validate (.list item) v = .accepted w) :
    ∃ xs ys, v = .list xs ∧ w = .list ys ∧ ∀ y ∈ ys, ∃ x ∈ xs, validate item x = .accepted y := by
  unfold validate at h
  split at h
  · obtain ⟨ys, hys, rfl⟩ := Verdict.map_accepted.1 h
    exact ⟨_, ys, rfl, rfl, readItems_accepted hys⟩
  · cases h

/-- A field for entities holds a list of entities that were read. -/
theorem entities_of_validate {kind : Kind} {fields : Fields} {v w : Value}
    (h : validate (.record kind fields) v = .accepted w) (name : String) (item : Kind)
    (hf : fields.find? (fun f => f.1.name == name) = some (Shape.many name item.shape)) :
    ∃ ys, w.field name = .list ys ∧
      ∀ y ∈ ys, ∃ x, validate item.shape x = .accepted y := by
  obtain ⟨slots, x, rfl, hx, hadmits⟩ := read_field h name hf
  have hfield : (Value.entity kind slots).field name = x := by
    simp [Value.field, Value.field?, hx]
  rw [hfield]
  rcases hadmits with hnone | ⟨u, -, hu⟩
  · obtain rfl : Value.list [] = x := by simpa using hnone
    exact ⟨[], rfl, by simp⟩
  · obtain ⟨z, hz, hx⟩ := Verdict.andThen_accepted.1 hu
    obtain ⟨xs, ys, -, rfl, hys⟩ := list_accepted hz
    obtain rfl : Value.list ys = x := by simpa [Rule.check] using hx
    refine ⟨ys, rfl, ?_⟩
    intro y hy
    obtain ⟨x, -, hread⟩ := hys y hy
    exact ⟨x, hread⟩

/-- What a field for texts admits, if a document has to give it. -/
theorem text_admitted {name external : String} {accepted : List String} {v : Value}
    (h : Admits ⟨name, external, accepted, none, .free⟩ .text v) : ∃ s, v = .text s := by
  rcases h with h | ⟨u, -, h⟩
  · cases h
  · obtain ⟨w, hw, hv⟩ := Verdict.andThen_accepted.1 h
    unfold validate at hw
    split at hw
    · next s =>
      cases hw
      cases hv
      exact ⟨s, rfl⟩
    · cases hw

end Schema

/-- A result that was computed with a property is there. -/
theorem Outcome.exists_decided {α : Type} (x : Outcome α) (p : α → Prop) [DecidablePred p]
    (h : x.toOption.map (fun a => decide (p a)) = some true) : ∃ a, x = .ok a ∧ p a := by
  obtain ⟨a, ha, hp⟩ := Option.map_eq_some_iff.1 h
  exact ⟨a, toOption_eq_some.1 ha, of_decide_eq_true hp⟩

/-- A property of the story that a document gives is one of some story that was read. -/
theorem Story.exists_read (document : Value) (p : Story → Prop) [DecidablePred p]
    (h : (read document).toOption.map (fun story => decide (p story)) = some true) :
    ∃ story, read document = .ok story ∧ p story :=
  Outcome.exists_decided (read document) p h

end StoryWorld
