import StoryWorld.Path.Place

/-!
Laws of steps into a value.

Putting back what a step reads changes nothing, also through a computed value or a built-in name,
and so does putting back what a sequence of steps leads to. A change under one step leaves every
declared field that the step does not name as it was, unless the step is the one that reaches an
entity as a whole past its guards.
-/

namespace StoryWorld

namespace Slot

@[simp] theorem isExtra_extra (name : String) : (Slot.extra name).isExtra = true := rfl

@[simp] theorem isExtra_field (name : String) : (Slot.field name).isExtra = false := rfl

@[simp] theorem isExtra_attached (name : String) : (Slot.attached name).isExtra = false := rfl

@[simp] theorem isExtra_given : Slot.given.isExtra = false := rfl

@[simp] theorem isOwn_extra (name : String) : (Slot.extra name).isOwn = false := rfl

@[simp] theorem isOwn_field (name : String) : (Slot.field name).isOwn = true := rfl

@[simp] theorem isOwn_attached (name : String) : (Slot.attached name).isOwn = true := rfl

@[simp] theorem isOwn_given : Slot.given.isOwn = false := rfl

end Slot

/-- What takes the place of something built in is attached under its name, or stands in the slot for
it. -/
theorem Member.eq_of_slot? {member : Member} {name : String} {slot : Slot}
    (h : member.slot? name = some slot) : slot = .attached name ∨ slot = .given := by
  cases member with
  | operation shared => exact .inl (Option.some.inj h).symm
  | table entries => exact .inl (Option.some.inj h).symm
  | given settable =>
    cases settable with
    | true => exact .inr (Option.some.inj h).symm
    | false => cases h
  | extras => cases h
  | own => cases h

namespace Value

/-! ### The parts of an entity -/

/-- A slot that is not picked is passed over. -/
theorem refill_cons_skip {picked : Slot → Bool} {s : Slot} (h : picked s = false) (v : Value)
    (rest : List (Slot × Value)) (es : List (String × Value)) :
    refill picked ((s, v) :: rest) es = (s, v) :: refill picked rest es := by
  cases es with
  | nil => cases rest <;> rfl
  | cons e es => simp [refill, h]

/-- Filling the extra fields with what they hold changes nothing. -/
theorem refill_extras : ∀ slots : List (Slot × Value),
    refill Slot.isExtra slots (extras slots) = slots
  | [] => rfl
  | (.extra name, v) :: rest => by simp [extras, refill, refill_extras rest]
  | (.field _, _) :: rest | (.attached _, _) :: rest | (.given, _) :: rest => by
    simp only [extras]
    rw [refill_cons_skip rfl, refill_extras rest]

/-- Filling what is held beside them with what it is changes nothing. -/
theorem refill_own : ∀ slots : List (Slot × Value), refill Slot.isOwn slots (own slots) = slots
  | [] => rfl
  | (.field name, v) :: rest => by simp [own, refill, refill_own rest]
  | (.attached name, v) :: rest => by simp [own, refill, refill_own rest]
  | (.extra _, _) :: rest | (.given, _) :: rest => by
    rw [own, refill_cons_skip rfl, refill_own rest]

/-- A slot that is not picked keeps its value. -/
theorem get?_refill {picked : Slot → Bool} {s : Slot} (h : picked s = false) :
    ∀ (slots : List (Slot × Value)) (es : List (String × Value)),
      Table.get? s (refill picked slots es) = Table.get? s slots
  | [], es => by simp [refill]
  | (t, v) :: rest, [] => by simp [refill]
  | (t, v) :: rest, e :: es => by
    by_cases hp : picked t = true
    · have hts : t ≠ s := by rintro rfl; simp [h] at hp
      simp [refill, hp, Table.get?, hts, get?_refill h rest es]
    · simp [refill, hp, Table.get?, get?_refill h rest (e :: es)]

/-- Putting back what a slot holds changes nothing. -/
theorem putHeld_getD (s : Slot) (slots : List (Slot × Value)) (default : Value) :
    putHeld s ((Table.get? s slots).getD default) slots = slots := by
  unfold putHeld
  split
  · obtain ⟨v, hv⟩ := Option.isSome_iff_exists.1 ‹Table.has s slots = true›
    rw [hv]
    exact Table.put_of_get? hv
  · rfl

theorem get?_putHeld_of_ne {s t : Slot} (h : t ≠ s) (v : Value) (slots : List (Slot × Value)) :
    Table.get? t (putHeld s v slots) = Table.get? t slots := by
  unfold putHeld
  split
  · exact Table.get?_put_of_ne h v slots
  · rfl

/-- The extra fields of an entity are among its slots. -/
theorem mem_extras {e : String × Value} : ∀ {slots : List (Slot × Value)},
    e ∈ extras slots ↔ (.extra e.1, e.2) ∈ slots
  | [] => by simp [extras]
  | (.extra name, v) :: rest => by simp [extras, @mem_extras e rest, Prod.ext_iff]
  | (.field _, _) :: rest => by simp [extras, @mem_extras e rest]
  | (.attached _, _) :: rest => by simp [extras, @mem_extras e rest]
  | (.given, _) :: rest => by simp [extras, @mem_extras e rest]

/-- What an entity holds beside its extra fields is among its slots. -/
theorem mem_own {e : String × Value} : ∀ {slots : List (Slot × Value)},
    e ∈ own slots → ∃ s, (s, e.2) ∈ slots
  | (.extra _, _) :: rest, h | (.given, _) :: rest, h => by
    obtain ⟨s, hs⟩ := mem_own (by simpa [own] using h)
    exact ⟨s, List.mem_cons_of_mem _ hs⟩
  | (.field name, v) :: rest, h => by
    rcases List.mem_cons.1 (by simpa [own] using h) with rfl | h
    · exact ⟨_, List.mem_cons_self⟩
    · obtain ⟨s, hs⟩ := mem_own h
      exact ⟨s, List.mem_cons_of_mem _ hs⟩
  | (.attached name, v) :: rest, h => by
    rcases List.mem_cons.1 (by simpa [own] using h) with rfl | h
    · exact ⟨_, List.mem_cons_self⟩
    · obtain ⟨s, hs⟩ := mem_own h
      exact ⟨s, List.mem_cons_of_mem _ hs⟩

/-- Refilling brings in nothing but the new values. -/
theorem mem_refill {picked : Slot → Bool} {e : Slot × Value} :
    ∀ {slots : List (Slot × Value)} {es : List (String × Value)},
      e ∈ refill picked slots es → e ∈ slots ∨ ∃ f ∈ es, f.2 = e.2
  | [], _, h => by simp [refill] at h
  | (s, v) :: rest, [], h => .inl (by simpa [refill] using h)
  | (s, v) :: rest, f :: es, h => by
    unfold refill at h
    split at h
    · rcases List.mem_cons.1 h with rfl | h
      · exact .inr ⟨f, List.mem_cons_self, rfl⟩
      · refine (mem_refill h).imp (List.mem_cons_of_mem _) ?_
        rintro ⟨g, hg, he⟩
        exact ⟨g, List.mem_cons_of_mem _ hg, he⟩
    · rcases List.mem_cons.1 h with rfl | h
      · exact .inl List.mem_cons_self
      · exact (mem_refill h).imp_left (List.mem_cons_of_mem _)

/-! ### Putting back what was read -/

/-- The relevance of a secret is a list only if both of its parts are lists. -/
theorem relevance_list {secret : Value} {items : List Value}
    (h : relevance secret = .ok (.list items)) :
    ∃ stats xs ys, secret.field? "stats" = some stats ∧
      stats.field? "legal_value" = some (.list xs) ∧
      stats.field? "public_damage" = some (.list ys) ∧ items = xs ++ ys := by
  unfold relevance at h
  cases hs : secret.field? "stats" with
  | none => simp [get, hs, bind, Except.bind] at h
  | some stats =>
    cases hl : stats.field? "legal_value" with
    | none => simp [get, hs, hl, bind, Except.bind] at h
    | some legal =>
      cases hd : stats.field? "public_damage" with
      | none => simp [get, hs, hl, hd, bind, Except.bind] at h
      | some damage =>
        simp only [get, hs, hl, hd, bind, Except.bind] at h
        unfold plus at h
        split at h
        · cases h
        · rename_i xs ys
          exact ⟨stats, xs, ys, rfl, hl, hd, by simpa using h.symm⟩
        · split at h
          · rename_i x y _ _
            cases hxy : x.add? y <;> simp [hxy, Outcome.ofSize, Except.map] at h
          · cases h

/-- Setting a field to what it holds changes nothing. -/
theorem setField_of_field? {v w : Value} {name : String} (h : v.field? name = some w) :
    v.setField name w = v := by
  cases v with
  | entity kind slots => exact congrArg (entity kind) (Table.put_of_get? h)
  | _ => rfl

/-- Sharing out the items of a relevance changes nothing. -/
theorem shareItems_of_relevance {secret : Value} {items : List Value}
    (h : relevance secret = .ok (.list items)) : shareItems secret items = secret := by
  obtain ⟨stats, xs, ys, hs, hl, hd, rfl⟩ := relevance_list h
  have hfs : secret.field "stats" = stats := by rw [field, hs]; rfl
  have hfl : stats.field "legal_value" = .list xs := by rw [field, hl]; rfl
  unfold shareItems
  simp only [hfs, hfl, items, List.take_left, List.drop_left]
  rw [setField_of_field? hl, setField_of_field? hd, setField_of_field? hs]

/-- Putting back what a step reads changes nothing. -/
theorem put_read {v w : Value} {s : Step} (h : v.read s = .ok w) : v.put s w = v := by
  unfold read at h
  split at h
  · split at h
    · obtain rfl := by simpa using h
      exact congrArg (entity _) (Table.put_of_get? ‹_›)
    · cases h
  · rename_i kind slots name
    unfold computed at h
    simp only [put, putComputed]
    split at h
    · rename_i x hc hx
      obtain rfl := by simpa using h
      rw [hc]
      exact congrArg (entity kind) (Table.put_of_get? hx)
    · rw [h]
  · rename_i kind slots name
    simp only [put, putBuiltin]
    split at h
    · rename_i member hm
      obtain rfl := by simpa using h
      cases member <;> simp only [hm, Member.value]
      · rw [putHeld_getD]
      · rw [refill_extras]
      · rw [refill_own]
    · simp only [‹kind.member? name = none›]
  · split at h
    · obtain rfl := by simpa using h
      exact congrArg mapping (Table.put_of_get? ‹_›)
    · cases h
  · rename_i xs i
    split at h
    · rename_i x hx
      obtain rfl := by simpa using h
      obtain ⟨hi, hxi⟩ := List.getElem?_eq_some_iff.1 hx
      simp only [put, ← hxi, List.set_getElem_self]
    · cases h
  · cases h

/-- A change inside is a change as a whole but for computed values. -/
theorem putInside_eq_put {v w : Value} {s : Step} (h : ∀ c, s ≠ .computed c) :
    v.putInside s w = v.put s w := by
  unfold putInside
  split
  · exact absurd rfl (h _)
  · rfl

/-- Putting back the inside of what a step reads changes nothing. -/
theorem putInside_read {v w : Value} {s : Step} (h : v.read s = .ok w) :
    v.putInside s w = v := by
  unfold putInside
  split
  · rename_i kind slots name items
    split
    · rename_i c hc
      have hcomputed : compute name (entity kind slots) = .ok (.list items) := by
        simpa [read, computed, hc] using h
      unfold compute at hcomputed
      split at hcomputed
      · cases htie : tieText (entity kind slots) <;> simp [htie, Except.map] at hcomputed
      · split at hcomputed
        · exact shareItems_of_relevance hcomputed
        · cases hu : isUrgent (entity kind slots) <;> simp [hu, Except.map] at hcomputed
    · exact put_read h
  · exact put_read h

/-- Putting back what a sequence of steps leads to changes nothing. -/
theorem replace_follow : ∀ {v w : Value} {steps : List Step},
    v.follow steps = .ok w → v.replace steps w = v
  | v, w, [], h => by
    obtain rfl := by simpa [follow] using h
    rfl
  | v, w, s :: rest, h => by
    unfold replace
    cases hr : v.read s with
    | error fault => rfl
    | ok inner =>
      have hi : inner.follow rest = .ok w := by simpa [follow, hr, bind, Except.bind] using h
      cases rest with
      | nil =>
        obtain rfl : inner = w := by simpa [follow] using hi
        exact put_read hr
      | cons t rest => simp only [replace_follow hi, putInside_read hr]

/-- Steps one after the other lead on from where the first ones lead. -/
theorem follow_append : ∀ (v : Value) (before after : List Step),
    v.follow (before ++ after) = (v.follow before).bind fun w => w.follow after
  | v, [], after => rfl
  | v, s :: before, after => by
    simp only [List.cons_append, follow, bind]
    cases v.read s with
    | error fault => rfl
    | ok w => exact follow_append w before after

/-! ### Fields that a step does not name -/

/-- Only one name reaches an entity as a whole. -/
theorem eq_ownName {kind : Kind} {name : String} (h : kind.member? name = some .own) :
    name = Kind.ownName := by
  unfold Kind.member? at h
  split at h
  · cases h
  · repeat (split at h; · cases h)
    split at h
    · assumption
    · split at h <;> cases h

/-- A change in one place of an entity gives an entity of the same kind, with the same in every
declared field that the step does not name. -/
theorem get?_put (kind : Kind) (slots : List (Slot × Value)) {s : Step}
    (ho : s ≠ .builtin Kind.ownName) (w : Value) :
    ∃ slots', (entity kind slots).put s w = entity kind slots' ∧
      ∀ name, s ≠ .slot (.field name) →
        Table.get? (.field name) slots' = Table.get? (.field name) slots := by
  cases s with
  | slot t =>
    refine ⟨_, rfl, fun name hs => Table.get?_put_of_ne ?_ w slots⟩
    rintro rfl
    exact hs rfl
  | computed c =>
    simp only [put, putComputed]
    split
    · exact ⟨_, rfl, fun name _ => Table.get?_put_of_ne (by simp) w slots⟩
    · exact ⟨_, rfl, fun _ _ => rfl⟩
  | builtin b =>
    simp only [put, putBuiltin]
    split
    · exact ⟨_, rfl, fun _ _ => get?_refill rfl slots _⟩
    · exact absurd (congrArg Step.builtin (eq_ownName ‹_›)) ho
    · exact ⟨_, rfl, fun _ _ => get?_putHeld_of_ne (by simp) _ slots⟩
    · exact ⟨_, rfl, fun _ _ => rfl⟩
  | key k => exact ⟨_, rfl, fun _ _ => rfl⟩
  | item i => exact ⟨_, rfl, fun _ _ => rfl⟩

/-- So does a change inside it, but for what computed lists are put together from. -/
theorem get?_putInside (kind : Kind) (slots : List (Slot × Value)) {s : Step}
    (ho : s ≠ .builtin Kind.ownName) (w : Value) :
    ∃ slots', (entity kind slots).putInside s w = entity kind slots' ∧
      ∀ name, s ≠ .slot (.field name) → name ≠ "stats" →
        Table.get? (.field name) slots' = Table.get? (.field name) slots := by
  have hput := get?_put kind slots ho w
  unfold putInside
  split
  · rename_i k l c items heq
    obtain ⟨rfl, rfl⟩ := by simpa using heq
    split
    · exact ⟨_, rfl, fun name _ hn => Table.get?_put_of_ne (by simpa using hn) _ _⟩
    · obtain ⟨slots', hs, hget⟩ := hput
      exact ⟨slots', hs, fun name hs _ => hget name hs⟩
  · obtain ⟨slots', hs, hget⟩ := hput
    exact ⟨slots', hs, fun name hs _ => hget name hs⟩

end Value

end StoryWorld
