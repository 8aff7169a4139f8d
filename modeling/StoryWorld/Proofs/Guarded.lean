import StoryWorld.Proofs.Holdings
import StoryWorld.Proofs.Paths

/-!
What guards the cash ledger against path deltas.

Along a path from the assets every value has a part to play: the assets themselves, their cash
ledger, an entry of it, the holder or the balance in an entry, or none of these. A change at the end
of the path that leaves the part there in order leaves the assets in order, as long as the path
passes no guards. Each operation of a path delta makes only such changes.
-/

namespace StoryWorld

/-! ### What an assignment does -/

namespace Assign

variable {kind : Kind} {slots : List (Slot × Value)} {value : Value}

/-- What an assignment of a value to a place of an entity can do: it fails, it puts the value into a
slot, or into a declared field that cannot be noted as given, it replaces all that the entity holds,
or it settles in a slot of a guarded entity the value itself or what the value was read as. -/
inductive Effect (kind : Kind) (slots : List (Slot × Value)) (step : Step) (value : Value) :
    Value × Outcome Unit → Prop
  | failed (fault : Fault) : Effect kind slots step value (.entity kind slots, .error fault)
  | placed (slot : Slot) (h : kind.guarded = true → ∀ name, slot ≠ .field name) :
    Effect kind slots step value (.entity kind (Table.put slot value slots), .ok ())
  | unnoted (name : String) (hs : step = .slot (.field name)) (hg : kind.guarded = false)
    (hn : notes slots = false) :
    Effect kind slots step value
      (.entity kind (Table.put (.field name) value slots), .error .noField)
  | replaced (es : List (String × Value)) (hs : step = .builtin Kind.ownName)
    (hv : value = .mapping es) :
    Effect kind slots step value
      (.entity kind (es.map (fun e => (ownSlot kind e.1, e.2)) ++ slots.filter (!·.1.isOwn)), .ok ())
  | settled (slot : Slot) (h : ∀ name, slot ≠ .field name) :
    Effect kind slots step value (settle kind slots slot value)
  | settledField (name : String) (f : Field) (shape : Shape) (v : Value)
    (hf : kind.field? name = some (f, shape))
    (hv : (Schema.validate shape value).andThen f.rule.check = .accepted v) :
    Effect kind slots step value (settle kind slots (.field name) v)

theorem toEntity_effect (kind : Kind) (slots : List (Slot × Value)) (step : Step) (value : Value) :
    Effect kind slots step value (toEntity kind slots step value) := by
  unfold toEntity
  split
  · split
    · unfold guardedField
      split
      · exact .failed _
      · split
        · exact .settledField _ _ _ _ ‹_› (Verdict.under_accepted.1 ‹_›)
        · exact .failed _
        · exact .failed _
    · rename_i hg
      unfold openField
      split
      · exact .placed _ fun h => absurd h hg
      · exact .unnoted _ rfl (by simpa using hg) (by simpa using ‹¬notes slots = true›)
  · split
    · exact .placed _ fun _ _ => by simp
    · split
      · exact .settled _ (by simp)
      · exact .placed _ fun _ _ => by simp
  · exact .placed _ fun _ name hslot => ‹∀ name, _ = Slot.field name → False› name hslot
  · unfold toBuiltin
    split
    · unfold replaceOwn
      split
      · exact .replaced _ (congrArg Step.builtin (Value.eq_ownName ‹_›)) rfl
      · exact .failed _
    · split
      · exact .failed _
      · split
        · exact .settled _ (by simp)
        · refine .placed _ fun _ field => ?_
          rcases Member.eq_of_slot? ‹_› with rfl | rfl <;> simp
    · exact .failed _
  · exact .failed _

end Assign

/-! ### The parts -/

/-- The parts that a value can play on the way into the assets. -/
inductive Part where
  | assets | ledger | entry | holder | balance | free
  deriving DecidableEq, Repr

namespace Part

/-- Whether a value fills a part in order. -/
def Holds : Part → Value → Prop
  | assets => Value.IsAssets
  | ledger => Value.IsLedger
  | entry => Value.IsEntry
  | holder => fun v => ∃ s, v = .text s
  | balance => fun v => ∃ n : Number, v = .number n ∧ n.IsBalance
  | free => fun _ => True

/-- The part of what a step leads to. -/
def next : Part → Step → Part
  | assets, .slot (.field "cash_ledger") => ledger
  | ledger, .item _ => entry
  | entry, .slot (.field "holder") => holder
  | entry, .slot (.field "denarii") => balance
  | _, _ => free

/-- The part of what a sequence of steps leads to. -/
def along (p : Part) (steps : List Step) : Part := steps.foldl next p

/-- The declared fields that play a part in a part. -/
def fields : Part → List String
  | assets => ["cash_ledger"]
  | entry => ["holder", "denarii"]
  | _ => []

/-! ### Where each part is reached -/

theorem next_field {p : Part} {name : String} (h : name ∈ p.fields) :
    p.next (.slot (.field name)) ≠ free := by
  cases p <;> simp [fields] at h
  · subst h; decide
  · rcases h with rfl | rfl <;> decide

theorem next_eq_ledger {p : Part} {s : Step} (h : p.next s = ledger) :
    p = assets ∧ s = .slot (.field "cash_ledger") := by
  unfold next at h
  split at h <;> simp_all

theorem next_eq_entry {p : Part} {s : Step} (h : p.next s = entry) :
    p = ledger ∧ ∃ i, s = .item i := by
  unfold next at h
  split at h <;> simp_all

/-! ### Steps lead from part to part -/

/-- What a step reads plays the next part in order. -/
theorem holds_read {p : Part} {v w : Value} {s : Step} (hv : p.Holds v) (h : v.read s = .ok w) :
    (p.next s).Holds w := by
  unfold next
  split
  · obtain ⟨slots, ledger, rfl, hget, hl⟩ := hv
    obtain rfl : ledger = w := by simpa [Value.read, hget] using h
    exact hl
  · obtain ⟨entries, rfl, he⟩ := hv
    unfold Value.read at h
    simp only at h
    split at h
    · rename_i x hx
      obtain rfl := by simpa using h
      exact he _ (List.mem_of_getElem? hx)
    · cases h
  · obtain ⟨g, hg, -⟩ := hv
    obtain ⟨slots, rfl, hh, -⟩ := Value.holding?_eq.1 hg
    exact ⟨g.holder, by simpa [Value.read, hh] using h.symm⟩
  · obtain ⟨g, hg, hb⟩ := hv
    obtain ⟨slots, rfl, -, hd⟩ := Value.holding?_eq.1 hg
    exact ⟨g.balance, by simpa [Value.read, hd] using h.symm, hb⟩
  · trivial

theorem holds_follow {p : Part} : ∀ {steps : List Step} {v w : Value}, p.Holds v →
    v.follow steps = .ok w → (p.along steps).Holds w
  | [], v, w, hv, h => by
    obtain rfl := by simpa [Value.follow] using h
    exact hv
  | s :: rest, v, w, hv, h => by
    obtain ⟨u, hu, h⟩ := Outcome.bind_ok.1 h
    exact holds_follow (p := p.next s) (holds_read hv hu) h

/-- An entity stays in order as long as its guarded fields are what they were. -/
theorem holds_of_fields {p : Part} {kind : Kind} {slots slots' : List (Slot × Value)}
    (hv : p.Holds (.entity kind slots))
    (h : ∀ name ∈ p.fields, Table.get? (.field name) slots' = Table.get? (.field name) slots) :
    p.Holds (.entity kind slots') := by
  cases p with
  | assets =>
    obtain ⟨_, ledger, heq, hget, hl⟩ := hv
    obtain ⟨rfl, rfl⟩ := by simpa using heq
    exact ⟨slots', ledger, rfl, by rw [h _ List.mem_cons_self, hget], hl⟩
  | entry =>
    obtain ⟨g, hg, hb⟩ := hv
    obtain ⟨_, heq, hh, hd⟩ := Value.holding?_eq.1 hg
    obtain ⟨rfl, rfl⟩ := by simpa using heq
    refine ⟨g, Value.holding?_eq.2 ⟨slots', rfl, ?_, ?_⟩, hb⟩
    · rw [h "holder" (by simp [fields]), hh]
    · rw [h "denarii" (by simp [fields]), hd]
  | ledger => obtain ⟨_, heq, -⟩ := hv; cases heq
  | holder => obtain ⟨_, heq⟩ := hv; cases heq
  | balance => obtain ⟨_, heq, -⟩ := hv; cases heq
  | free => trivial

/-- An entry with another balance is in order, and of the same holder. -/
theorem holding?_put_denarii {slots : List (Slot × Value)} {g : Holding}
    (h : (Value.entity .ledgerEntry slots).holding? = some g) (n : Number) :
    (Value.entity .ledgerEntry (Table.put (.field "denarii") (.number n) slots)).holding? =
      some ⟨g.holder, n⟩ := by
  obtain ⟨slots, ⟨rfl, rfl⟩, hh, -⟩ := Value.holding?_eq.1 h
  refine Value.holding?_eq.2 ⟨_, rfl, ?_, Table.get?_put_self ..⟩
  rw [Table.get?_put_of_ne (by decide), hh]

/-- The forms of the values that fill the parts. -/
theorem form {p : Part} {v : Value} (hv : p.Holds v) :
    p = free ∨ (∃ kind slots, v = .entity kind slots) ∨ (∃ xs, p = ledger ∧ v = .list xs) ∨
      (∃ t, v = .text t) ∨ ∃ n, v = .number n := by
  cases p with
  | assets =>
    obtain ⟨slots, _, rfl, -⟩ := hv
    exact .inr (.inl ⟨_, slots, rfl⟩)
  | ledger =>
    obtain ⟨xs, rfl, -⟩ := hv
    exact .inr (.inr (.inl ⟨xs, rfl, rfl⟩))
  | entry =>
    obtain ⟨g, hg, -⟩ := hv
    obtain ⟨slots, rfl, -⟩ := Value.holding?_eq.1 hg
    exact .inr (.inl ⟨_, slots, rfl⟩)
  | holder =>
    obtain ⟨t, rfl⟩ := hv
    exact .inr (.inr (.inr (.inl ⟨t, rfl⟩)))
  | balance =>
    obtain ⟨n, rfl, -⟩ := hv
    exact .inr (.inr (.inr (.inr ⟨n, rfl⟩)))
  | free => exact .inl rfl

/-- A list of items of a list that fills a part fills it too. -/
theorem holds_of_subset {p : Part} {xs ys : List Value} (h : p.Holds (.list xs))
    (hsub : ∀ y ∈ ys, y ∈ xs) : p.Holds (.list ys) := by
  rcases form h with rfl | ⟨_, _, hl⟩ | ⟨_, rfl, -⟩ | ⟨_, hl⟩ | ⟨_, hl⟩
  · trivial
  · cases hl
  · obtain ⟨zs, heq, he⟩ := h
    obtain rfl : xs = zs := by simpa using heq
    exact ⟨ys, rfl, fun e hmem => he e (hsub e hmem)⟩
  · cases hl
  · cases hl

/-- A change under a step that leads to no part leaves a part in order. -/
theorem holds_put_free {p : Part} {v : Value} {s : Step} (ho : s ≠ .builtin Kind.ownName)
    (hn : p.next s = free) (hv : p.Holds v) (w : Value) : p.Holds (v.put s w) := by
  rcases form hv with rfl | ⟨kind, slots, rfl⟩ | ⟨xs, rfl, rfl⟩ | ⟨t, rfl⟩ | ⟨n, rfl⟩
  · trivial
  · obtain ⟨slots', hput, hget⟩ := Value.get?_put kind slots ho w
    rw [hput]
    refine holds_of_fields hv fun name hname => hget name ?_
    rintro rfl
    exact next_field hname hn
  · cases s with
    | item i => cases hn
    | _ => exact hv
  · cases s <;> exact hv
  · cases s <;> exact hv

/-- A change where a step leads that fills the part there leaves a part in order. -/
theorem holds_put {p : Part} {v w : Value} {s : Step} (ho : s ≠ .builtin Kind.ownName)
    (hv : p.Holds v) (hw : (p.next s).Holds w) : p.Holds (v.put s w) := by
  by_cases hn : p.next s = free
  · exact holds_put_free ho hn hv w
  unfold next at hw hn
  split at hw
  · obtain ⟨slots, ledger, rfl, -⟩ := hv
    exact ⟨_, w, rfl, Table.get?_put_self .., hw⟩
  · rename_i i
    obtain ⟨entries, rfl, he⟩ := hv
    refine ⟨entries.set i w, rfl, fun e hmem => ?_⟩
    rcases List.mem_or_eq_of_mem_set hmem with h | rfl
    · exact he e h
    · exact hw
  · obtain ⟨g, hg, hb⟩ := hv
    obtain ⟨slots, rfl, -, hd⟩ := Value.holding?_eq.1 hg
    obtain ⟨t, rfl⟩ := hw
    refine ⟨⟨t, g.balance⟩, Value.holding?_eq.2 ⟨_, rfl, Table.get?_put_self .., ?_⟩, hb⟩
    rw [Table.get?_put_of_ne (by decide), hd]
  · obtain ⟨g, hg, -⟩ := hv
    obtain ⟨slots, rfl, -⟩ := Value.holding?_eq.1 hg
    obtain ⟨n, rfl, hn⟩ := hw
    exact ⟨⟨g.holder, n⟩, holding?_put_denarii hg n, hn⟩
  · simp at hn

/-- So does a change inside what a step leads to. -/
theorem holds_putInside {p : Part} {v w : Value} {s : Step} (ho : s ≠ .builtin Kind.ownName)
    (hv : p.Holds v) (hw : (p.next s).Holds w) : p.Holds (v.putInside s w) := by
  by_cases hc : ∃ c, s = .computed c
  · obtain ⟨c, rfl⟩ := hc
    rcases form hv with rfl | ⟨kind, slots, rfl⟩ | ⟨xs, rfl, rfl⟩ | ⟨t, rfl⟩ | ⟨n, rfl⟩
    · trivial
    · obtain ⟨slots', hput, hget⟩ := Value.get?_putInside kind slots ho w
      rw [hput]
      refine holds_of_fields hv fun name hname => hget name (by simp) ?_
      rintro rfl
      cases p <;> simp [fields] at hname
    all_goals exact hv
  · rw [Value.putInside_eq_put (fun c hs => hc ⟨c, hs⟩)]
    exact holds_put ho hv hw

/-- A change at the end of steps that pass no guards, which fills the part there, leaves a part in
order. -/
theorem holds_replace {p : Part} : ∀ {steps : List Step} {v w : Value},
    Step.builtin Kind.ownName ∉ steps → p.Holds v → (p.along steps).Holds w →
      p.Holds (v.replace steps w)
  | [], v, w, _, _, hw => hw
  | s :: rest, v, w, ho, hv, hw => by
    rw [List.mem_cons, not_or] at ho
    unfold Value.replace
    split
    · rename_i inner hread
      split
      · exact holds_put (Ne.symm ho.1) hv hw
      · exact holds_putInside (Ne.symm ho.1) hv (holds_replace ho.2 (holds_read hv hread) hw)
    · exact hv

/-! ### Assigning to a place -/

/-- The kind of an entity that fills a part. -/
theorem kind_of_holds {p : Part} {kind : Kind} {slots : List (Slot × Value)}
    (hv : p.Holds (.entity kind slots)) :
    p = free ∨ (p = assets ∧ kind = .assets) ∨ (p = entry ∧ kind = .ledgerEntry) := by
  cases p with
  | assets =>
    obtain ⟨_, _, heq, -⟩ := hv
    exact .inr (.inl ⟨rfl, (Value.entity.inj heq).1⟩)
  | entry =>
    obtain ⟨_, hg, -⟩ := hv
    obtain ⟨_, heq, -⟩ := Value.holding?_eq.1 hg
    exact .inr (.inr ⟨rfl, (Value.entity.inj heq).1⟩)
  | free => exact .inl rfl
  | ledger => obtain ⟨_, heq, -⟩ := hv; cases heq
  | holder => obtain ⟨_, heq⟩ := hv; cases heq
  | balance => obtain ⟨_, heq, -⟩ := hv; cases heq

/-- What a guarded field admits fills the part of the field. -/
theorem holds_admitted {p : Part} {kind : Kind} {name : String} {f : Field} {shape : Shape}
    {v : Value} (hp : (p = assets ∧ kind = .assets) ∨ (p = entry ∧ kind = .ledgerEntry))
    (hf : kind.field? name = some (f, shape)) (h : Schema.Admits f shape v) :
    (p.next (.slot (.field name))).Holds v := by
  unfold next
  split
  · obtain rfl : kind = .assets := by simpa using hp
    rename_i heq
    obtain rfl : name = "cash_ledger" := by simpa using heq
    exact Schema.ledger_admitted hf h
  · rename_i heq
    cases heq
  · obtain rfl : kind = .ledgerEntry := by simpa using hp
    rename_i heq
    obtain rfl : name = "holder" := by simpa using heq
    exact Schema.holder_admitted hf h
  · obtain rfl : kind = .ledgerEntry := by simpa using hp
    rename_i heq
    obtain rfl : name = "denarii" := by simpa using heq
    exact Schema.denarii_admitted hf h
  · trivial

/-- An entity that settles a value where it belongs stays in order. -/
theorem holds_settle {p : Part} {kind : Kind} {slots : List (Slot × Value)} {slot : Slot}
    {value : Value} (hv : p.Holds (.entity kind slots)) (hw : (p.next (.slot slot)).Holds value) :
    p.Holds (Assign.settle kind slots slot value).1 := by
  have hd : p.Holds (.entity kind (slots.filter Assign.documented)) :=
    holds_of_fields hv fun name _ => Table.get?_filter (fun _ => rfl) slots
  unfold Assign.settle
  split
  · exact holds_put (s := .slot slot) (by simp) hd hw
  · exact hv

/-- Assigning past the place of a whole entity leaves a part in order, if what takes the place of an
entry is one. -/
theorem holds_assign {p : Part} {c value : Value} {step : Step}
    (ho : step ≠ .builtin Kind.ownName) (hc : p.Holds c)
    (hv : p.next step = entry → value.IsEntry) : p.Holds (Assign.assign c step value).1 := by
  rcases form hc with rfl | ⟨kind, slots, rfl⟩ | ⟨xs, rfl, rfl⟩ | ⟨t, rfl⟩ | ⟨n, rfl⟩
  · trivial
  · rcases kind_of_holds hc with rfl | hkind
    · trivial
    have hguarded : kind.guarded = true := by
      rcases hkind with ⟨-, rfl⟩ | ⟨-, rfl⟩ <;> rfl
    have hfree : ∀ slot, (∀ name, slot ≠ .field name) → p.next (.slot slot) = free := by
      intro slot hslot
      cases slot <;> first | exact absurd rfl (hslot _) | (cases p <;> rfl)
    simp only [Assign.assign]
    have heffect := Assign.toEntity_effect kind slots step value
    generalize Assign.toEntity kind slots step value = r at heffect ⊢
    cases heffect with
    | failed fault => exact hc
    | placed slot h =>
      exact holds_put_free (s := .slot slot) (by simp) (hfree slot (h hguarded)) hc value
    | unnoted name hs hg =>
      rw [hg] at hguarded
      cases hguarded
    | replaced es hs => exact absurd hs ho
    | settled slot h => exact holds_settle hc (by rw [hfree slot h]; trivial)
    | settledField name f shape v hf hv =>
      exact holds_settle hc (holds_admitted hkind hf (.inr ⟨value, trivial, hv⟩))
  · refine holds_put ho hc ?_
    cases step with
    | item i => exact hv rfl
    | _ => trivial
  · cases step <;> exact hc
  · cases step <;> exact hc

end Part

/-! ### Path deltas on the assets -/

namespace Place

/-- The part of what a place of the assets holds. -/
def part (place : Place) : Part := Part.assets.along place.steps

theorem part_eq (place : Place) : place.part = (Part.assets.along place.before).next place.last := by
  simp [part, steps, Part.along]

variable {story : Story} {place : Place}

/-- What a place of the assets holds fills its part. -/
theorem holds_read {v : Value} (hroot : place.root = .assets) (h : story.assets.IsAssets)
    (hv : place.read story = .ok v) : place.part.Holds v := by
  rw [read_eq, hroot] at hv
  exact Part.holds_follow h hv

/-- A write leaves the assets in order, if what takes the place of an entry is one. -/
theorem isAssets_write {value : Value} (hroot : place.root = .assets)
    (ho : Step.builtin Kind.ownName ∉ place.steps) (h : story.assets.IsAssets) (path : String)
    (hv : place.part = .entry → value.IsEntry) :
    (place.write story path value).1.assets.IsAssets := by
  rw [steps, List.mem_append, not_or, List.mem_singleton] at ho
  unfold write
  split
  · exact h
  · rename_i w hw
    rw [container, hroot] at hw
    have hpart := Part.holds_follow (p := .assets) h hw
    rw [part_eq] at hv
    have hassign := Part.holds_assign (Ne.symm ho.2) hpart hv
    simp only [setContainer, hroot]
    exact Part.holds_replace (p := .assets) ho.1 h hassign

/-- Putting something in the part of a place leaves the assets in order. -/
theorem isAssets_put {value : Value} (hroot : place.root = .assets)
    (ho : Step.builtin Kind.ownName ∉ place.steps) (h : story.assets.IsAssets)
    (hv : place.part.Holds value) : (place.put story value).assets.IsAssets := by
  rw [put, hroot]
  exact Part.holds_replace (p := .assets) ho h hv

/-- A list joins entries only where it is declared to. -/
theorem itemKind?_of_part {v : Value} (hroot : place.root = .assets) (h : story.assets.IsAssets)
    (hv : place.read story = .ok v) (hp : place.part = .ledger) :
    place.itemKind? story = some .ledgerEntry := by
  rw [part_eq] at hp
  obtain ⟨hbefore, hlast⟩ := Part.next_eq_ledger hp
  obtain ⟨w, hw, -⟩ := Outcome.bind_ok.1 hv
  have hc := hw
  rw [container, hroot] at hw
  have hassets := Part.holds_follow (p := .assets) h hw
  rw [hbefore] at hassets
  obtain ⟨slots, ledger, rfl, -⟩ := hassets
  rw [itemKind?, hc, hlast]
  rfl

end Place

namespace Delta

variable {story : Story} {place : Place} {delta : Delta}

theorem isEntry_of_fit {v : Value} (h : fit .ledgerEntry delta = .ok v) : v.IsEntry := by
  unfold fit at h
  split at h
  · cases h
  · exact Schema.isEntry_of_validate (Verdict.outcome_ok.1 h)

/-- What takes the place of an entry is one. -/
theorem isEntry_of_replacement {v : Value} (hroot : place.root = .assets)
    (h : story.assets.IsAssets) (hp : place.part = .entry)
    (hv : replacement story place delta = .ok v) : v.IsEntry := by
  have hlast := hp
  rw [Place.part_eq] at hlast
  obtain ⟨-, i, hi⟩ := Part.next_eq_entry hlast
  rw [replacement, hi] at hv
  obtain ⟨w, hw, hv⟩ := Outcome.bind_ok.1 hv
  have hentry := Place.holds_read hroot h hw
  rw [hp] at hentry
  obtain ⟨g, hg, -⟩ := hentry
  obtain ⟨slots, rfl, -⟩ := Value.holding?_eq.1 hg
  exact isEntry_of_fit hv

/-- There is no arithmetic on an entry. -/
theorem part_ne_entry_of_computed {v : Value} {f : Number → Number → Option Number}
    (hroot : place.root = .assets) (h : story.assets.IsAssets)
    (hv : computed story place delta f = .ok v) : place.part ≠ .entry := by
  intro hp
  obtain ⟨⟨a, b⟩, hab, -⟩ := Outcome.bind_ok.1 hv
  obtain ⟨w, hw, hab⟩ := Outcome.bind_ok.1 hab
  have hentry := Place.holds_read hroot h hw
  rw [hp] at hentry
  obtain ⟨g, hg, -⟩ := hentry
  obtain ⟨slots, rfl, -⟩ := Value.holding?_eq.1 hg
  simp [Value.number?, refuse] at hab

theorem requireList_ok {xs : List Value} (h : requireList story place delta = .ok xs) :
    place.read story = .ok (.list xs) := by
  obtain ⟨v, hv, h⟩ := Outcome.bind_ok.1 h
  split at h
  · rw [hv, Outcome.pure_ok.1 h]
  · exact absurd h Outcome.refuse_ne_ok

/-- A list after appending fills the part of its place. -/
theorem holds_appended {xs : List Value} (hroot : place.root = .assets)
    (h : story.assets.IsAssets) (hxs : appended story place delta = .ok xs) :
    place.part.Holds (.list xs) := by
  obtain ⟨ys, hys, hxs⟩ := Outcome.bind_ok.1 hxs
  obtain ⟨x, hx, hxs⟩ := Outcome.bind_ok.1 hxs
  obtain rfl := Outcome.pure_ok.1 hxs
  have hread := requireList_ok hys
  have hpart := Place.holds_read hroot h hread
  rcases Part.form hpart with hp | ⟨_, _, hl⟩ | ⟨_, hp, -⟩ | ⟨_, hl⟩ | ⟨_, hl⟩
  · rw [hp]; trivial
  · cases hl
  · rw [newItem, Place.itemKind?_of_part hroot h hread hp] at hx
    rw [hp] at hpart ⊢
    obtain ⟨zs, heq, he⟩ := hpart
    obtain rfl : ys = zs := by simpa using heq
    refine ⟨_, rfl, fun e hmem => ?_⟩
    rcases List.mem_append.1 hmem with hmem | hmem
    · exact he e hmem
    · obtain rfl := by simpa using hmem
      exact isEntry_of_fit hx
  · cases hl
  · cases hl

/-- Removing leaves items of the list at the place. -/
theorem removed_ok {xs : List Value} (h : removed story place delta = .ok xs) :
    ∃ ys, place.read story = .ok (.list ys) ∧ ∀ x ∈ xs, x ∈ ys := by
  obtain ⟨ys, hys, h⟩ := Outcome.bind_ok.1 h
  obtain ⟨pattern, -, h⟩ := Outcome.bind_ok.1 h
  obtain ⟨found, -, h⟩ := Outcome.bind_ok.1 h
  refine ⟨ys, requireList_ok hys, fun x hx => ?_⟩
  split at h
  · obtain rfl := Outcome.pure_ok.1 h
    exact List.mem_of_mem_eraseIdx hx
  · obtain rfl := Outcome.pure_ok.1 h
    exact hx

/-- A list after removing fills the part of its place. -/
theorem holds_removed {xs : List Value} (hroot : place.root = .assets)
    (h : story.assets.IsAssets) (hxs : removed story place delta = .ok xs) :
    place.part.Holds (.list xs) := by
  obtain ⟨ys, hread, hsub⟩ := removed_ok hxs
  exact Part.holds_of_subset (Place.holds_read hroot h hread) hsub

/-- What a path delta at its place can do: write what it sets or computes, put a list that has
grown or shrunk, or change nothing. -/
inductive Effect (story : Story) (place : Place) (delta : Delta) : Story × Outcome Unit → Prop
  | replaced :
    Effect story place delta (writeOutcome story place delta.path (replacement story place delta))
  | computed (f : Number → Number → Option Number) :
    Effect story place delta (writeOutcome story place delta.path (computed story place delta f))
  | appended : Effect story place delta (putOutcome story place (appended story place delta))
  | removed : Effect story place delta (putOutcome story place (removed story place delta))
  | unchanged (o : Outcome Unit) : Effect story place delta (story, o)

theorem amend_effect (story : Story) (place : Place) (delta : Delta) :
    Effect story place delta (amend story place delta) := by
  unfold amend
  split
  · exact .replaced
  · exact .appended
  · exact .removed
  · exact .unchanged _
  · split
    · exact .computed _
    · exact .unchanged _

/-- Arithmetic gives a number. -/
theorem computed_ok {f : Number → Number → Option Number} {v : Value}
    (h : computed story place delta f = .ok v) : ∃ n, v = .number n := by
  obtain ⟨_, -, h⟩ := Outcome.bind_ok.1 h
  obtain ⟨n, -, h⟩ := Outcome.bind_ok.1 h
  exact ⟨n, (Outcome.pure_ok.1 h).symm⟩

/-- What each operation keeps if it has something to write or to put, a path delta keeps at its
place. -/
theorem amend_keeps {P : Story → Prop} (h : P story)
    (hreplaced : ∀ v, replacement story place delta = .ok v → P (place.write story delta.path v).1)
    (hcomputed : ∀ f v, computed story place delta f = .ok v → P (place.write story delta.path v).1)
    (happended : ∀ xs, appended story place delta = .ok xs → P (place.put story (.list xs)))
    (hremoved : ∀ xs, removed story place delta = .ok xs → P (place.put story (.list xs))) :
    P (amend story place delta).1 := by
  have hwrite : ∀ value : Outcome Value,
      (∀ v, value = .ok v → P (place.write story delta.path v).1) →
        P (writeOutcome story place delta.path value).1 := by
    intro value hvalue
    cases value with
    | ok v => exact hvalue v rfl
    | error fault => exact h
  have hput : ∀ list : Outcome (List Value),
      (∀ xs, list = .ok xs → P (place.put story (.list xs))) →
        P (putOutcome story place list).1 := by
    intro list hlist
    cases list with
    | ok xs => exact hlist xs rfl
    | error fault => exact h
  have heffect := amend_effect story place delta
  generalize amend story place delta = r at heffect ⊢
  cases heffect with
  | replaced => exact hwrite _ hreplaced
  | computed f => exact hwrite _ (hcomputed f)
  | appended => exact hput _ happended
  | removed => exact hput _ hremoved
  | unchanged o => exact h

/-- A delta at a place of the assets that is reached past no guards leaves them in order. -/
theorem isAssets_amend (hroot : place.root = .assets)
    (ho : Step.builtin Kind.ownName ∉ place.steps) (h : story.assets.IsAssets) :
    (amend story place delta).1.assets.IsAssets :=
  amend_keeps (P := fun s => s.assets.IsAssets) h
    (fun _ hv => Place.isAssets_write hroot ho h delta.path fun hp =>
      isEntry_of_replacement hroot h hp hv)
    (fun _ _ hv => Place.isAssets_write hroot ho h delta.path fun hp =>
      absurd hp (part_ne_entry_of_computed hroot h hv))
    (fun _ hxs => Place.isAssets_put hroot ho h (holds_appended hroot h hxs))
    fun _ hxs => Place.isAssets_put hroot ho h (holds_removed hroot h hxs)

/-- A path delta elsewhere leaves the assets alone. -/
theorem assets_amend (hroot : place.root ≠ .assets) :
    (amend story place delta).1.assets = story.assets := by
  have hsame : story.root place.root = story.root place.root := rfl
  obtain ⟨v, o, h, -⟩ := amend_congr hsame delta
  rw [h]
  exact Story.root_setRoot_of_ne story (Ne.symm hroot) v

/-- A path delta keeps a story sound, whatever comes of it, if its steps into the assets reach no
entity as a whole. -/
theorem sound_amendPath_of (ho : ∀ place, Place.resolve story delta.path = .ok place →
    place.root = .assets → Step.builtin Kind.ownName ∉ place.steps) (h : story.Sound) :
    (amendPath story delta).1.Sound := by
  rcases amendPath_cases story delta with ⟨fault, heq⟩ | ⟨place, hplace, heq, hassets⟩
  · rw [heq]
    exact h
  rw [heq]
  by_cases hroot : place.root = .assets
  · exact Story.sound_of_flaw? (isAssets_amend hroot (ho place hplace hroot) h.entries)
      (hassets hroot).2
  · have hsame : (amend story place delta).1.assets = story.assets := assets_amend hroot
    refine ⟨by rw [hsame]; exact h.entries, ?_⟩
    rw [Story.holdings, ledger, hsame]
    exact h.unique

/-- A path delta that passes no guards keeps a story sound. -/
theorem sound_amendPath (hp : Place.passesGuards delta.path = false) (h : story.Sound) :
    (amendPath story delta).1.Sound :=
  sound_amendPath_of (fun _ hplace hroot => Place.resolve_spares hplace hroot hp) h

end Delta

end StoryWorld
