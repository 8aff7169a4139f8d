import StoryWorld.Proofs.Transfer

/-!
Steps along the document of a value, and what is put at the end of them.

A declared field, an extra field, a key and a position are parts of the document of a value; what an
entity computes, what is built into it and what was attached to it are not. Along parts of the
document a value is changed as a tree is: what is put somewhere is read there, what stands elsewhere
stays, and two changes in different parts can be made in either order.
-/

namespace StoryWorld

/-- Whether a slot is part of the document of an entity: not what was put beside it later. -/
def Slot.isDocumented : Slot → Bool
  | field _ | extra _ => true
  | attached _ | given => false

namespace Step

/-- Whether a step leads to something that a value holds, in its document or attached to it. -/
def isHeld : Step → Bool
  | slot _ | key _ | item _ => true
  | computed _ | builtin _ => false

/-- Whether a step leads to a part of the document of a value. -/
def isDocumented : Step → Bool
  | slot s => s.isDocumented
  | key _ | item _ => true
  | computed _ | builtin _ => false

theorem isHeld_of_isDocumented {s : Step} (h : s.isDocumented = true) : s.isHeld = true := by
  cases s with
  | computed name => cases h
  | builtin name => cases h
  | _ => rfl

end Step

namespace Value

variable {v w old new x y : Value} {s t : Step} {steps before rest other : List Step}

theorem read_slot {kind : Kind} {slots : List (Slot × Value)} {n : Slot} :
    (entity kind slots).read (.slot n) = .ok w ↔ Table.get? n slots = some w := by
  simp only [read]
  split <;> simp_all

theorem read_key {es : List (String × Value)} {k : String} :
    (mapping es).read (.key k) = .ok w ↔ Table.get? k es = some w := by
  simp only [read]
  split <;> simp_all

theorem read_item {xs : List Value} {i : Nat} :
    (list xs).read (.item i) = .ok w ↔ xs[i]? = some w := by
  simp only [read]
  split <;> simp_all

/-- What a value holds and can be read: a slot of an entity, a key of a mapping, and an item of a
list. -/
theorem read_held (hs : s.isHeld = true) (h : v.read s = .ok w) :
    (∃ kind slots n, v = entity kind slots ∧ s = .slot n ∧ Table.get? n slots = some w) ∨
    (∃ es k, v = mapping es ∧ s = .key k ∧ Table.get? k es = some w) ∨
    (∃ xs i, v = list xs ∧ s = .item i ∧ xs[i]? = some w) := by
  cases s with
  | computed name => cases hs
  | builtin name => cases hs
  | slot n =>
    cases v with
    | entity kind slots => exact .inl ⟨kind, slots, n, rfl, rfl, read_slot.1 h⟩
    | _ => cases h
  | key k =>
    cases v with
    | mapping es => exact .inr (.inl ⟨es, k, rfl, rfl, read_key.1 h⟩)
    | _ => cases h
  | item i =>
    cases v with
    | list xs => exact .inr (.inr ⟨xs, i, rfl, rfl, read_item.1 h⟩)
    | _ => cases h

/-- The parts of a document are among what a value holds. -/
theorem read_documented (hs : s.isDocumented = true) (h : v.read s = .ok w) :
    (∃ kind slots n, v = entity kind slots ∧ s = .slot n ∧ Table.get? n slots = some w) ∨
    (∃ es k, v = mapping es ∧ s = .key k ∧ Table.get? k es = some w) ∨
    (∃ xs i, v = list xs ∧ s = .item i ∧ xs[i]? = some w) :=
  read_held (Step.isHeld_of_isDocumented hs) h

theorem read_entity {kind : Kind} {slots : List (Slot × Value)} (hs : s.isDocumented = true)
    (h : (entity kind slots).read s = .ok w) :
    ∃ n, s = .slot n ∧ Table.get? n slots = some w := by
  rcases read_documented hs h with ⟨_, _, n, heq, rfl, hget⟩ | ⟨_, _, ⟨⟩, -⟩ | ⟨_, _, ⟨⟩, -⟩
  cases heq
  exact ⟨n, rfl, hget⟩

theorem read_list {xs : List Value} (hs : s.isDocumented = true) (h : (list xs).read s = .ok w) :
    ∃ i, s = .item i ∧ xs[i]? = some w := by
  rcases read_documented hs h with ⟨_, _, _, ⟨⟩, -⟩ | ⟨_, _, ⟨⟩, -⟩ | ⟨_, i, heq, rfl, hi⟩
  cases heq
  exact ⟨i, rfl, hi⟩

/-! ### One step -/

/-- An item that takes the place of one with the same image leaves the images as they were. -/
theorem map_set_eq {β : Type} {f : Value → β} {xs : List Value} {i : ℕ} (h : xs[i]? = some old)
    (hsame : f new = f old) : (xs.set i new).map f = xs.map f := by
  obtain ⟨hi, rfl⟩ := List.getElem?_eq_some_iff.1 h
  rw [List.map_set, hsame, ← List.getElem_map f (h := by simpa using hi), List.set_getElem_self]

/-- What is put somewhere is read there. -/
theorem read_put_held (hs : s.isHeld = true) (h : v.read s = .ok old) :
    (v.put s new).read s = .ok new := by
  rcases read_held hs h with ⟨kind, slots, n, rfl, rfl, -⟩ | ⟨es, k, rfl, rfl, -⟩ |
    ⟨xs, i, rfl, rfl, hget⟩
  · exact read_slot.2 (Table.get?_put_self n new slots)
  · exact read_key.2 (Table.get?_put_self k new es)
  · have hi := (List.getElem?_eq_some_iff.1 hget).1
    exact read_item.2 (by simp [hi])

theorem read_put_self (hs : s.isDocumented = true) (h : v.read s = .ok old) :
    (v.put s new).read s = .ok new :=
  read_put_held (Step.isHeld_of_isDocumented hs) h

/-- What stands elsewhere stays. -/
theorem read_put_of_ne (hs : s.isDocumented = true) (ht : t.isDocumented = true) (hne : s ≠ t)
    (h : v.read s = .ok old) : (v.put s new).read t = v.read t := by
  rcases read_documented hs h with ⟨kind, slots, n, rfl, rfl, -⟩ | ⟨es, k, rfl, rfl, -⟩ |
    ⟨xs, i, rfl, rfl, -⟩
  · cases t with
    | slot m =>
      have hm : m ≠ n := fun heq => hne (congrArg Step.slot heq.symm)
      simp only [put, read, Table.get?_put_of_ne hm]
    | computed name => cases ht
    | builtin name => cases ht
    | _ => rfl
  · cases t with
    | key l =>
      have hl : l ≠ k := fun heq => hne (congrArg Step.key heq.symm)
      simp only [put, read, Table.get?_put_of_ne hl]
    | _ => rfl
  · cases t with
    | item j =>
      have hj : i ≠ j := fun heq => hne (congrArg Step.item heq)
      simp only [put, read, List.getElem?_set_ne hj]
    | _ => rfl

/-- Of two values that are put in one place the second counts. -/
theorem put_put_self (hs : s.isDocumented = true) (h : v.read s = .ok old) :
    (v.put s x).put s y = v.put s y := by
  rcases read_documented hs h with ⟨kind, slots, n, rfl, rfl, -⟩ | ⟨es, k, rfl, rfl, -⟩ |
    ⟨xs, i, rfl, rfl, -⟩
  · simp only [put, Table.put_put]
  · simp only [put, Table.put_put]
  · simp only [put, List.set_set]

/-- Two values can be put in different places in either order. -/
theorem put_put_comm {a b : Value} (hs : s.isDocumented = true) (ht : t.isDocumented = true)
    (hne : s ≠ t) (ha : v.read s = .ok a) (hb : v.read t = .ok b) :
    (v.put s x).put t y = (v.put t y).put s x := by
  rcases read_documented hs ha with ⟨kind, slots, n, rfl, rfl, hn⟩ | ⟨es, k, rfl, rfl, hk⟩ |
    ⟨xs, i, rfl, rfl, -⟩
  · obtain ⟨m, rfl, hm⟩ := read_entity ht hb
    have hnm : n ≠ m := fun heq => hne (congrArg Step.slot heq)
    simp only [put, Table.put_comm hnm (Table.has_iff.2 ⟨a, hn⟩) (Table.has_iff.2 ⟨b, hm⟩)]
  · rcases read_documented ht hb with ⟨_, _, _, ⟨⟩, -⟩ | ⟨_, l, heq, rfl, hl⟩ | ⟨_, _, ⟨⟩, -⟩
    cases heq
    have hkl : k ≠ l := fun heq => hne (congrArg Step.key heq)
    simp only [put, Table.put_comm hkl (Table.has_iff.2 ⟨a, hk⟩) (Table.has_iff.2 ⟨b, hl⟩)]
  · obtain ⟨j, rfl, -⟩ := read_list ht hb
    have hij : i ≠ j := fun heq => hne (congrArg Step.item heq)
    simp only [put, List.set_comm x y hij]

/-! ### Several steps -/

theorem follow_cons :
    v.follow (s :: rest) = .ok w ↔ ∃ x, v.read s = .ok x ∧ x.follow rest = .ok w := by
  rw [follow]
  exact Outcome.bind_ok

theorem follow_append_ok :
    v.follow (before ++ rest) = .ok w ↔ ∃ x, v.follow before = .ok x ∧ x.follow rest = .ok w := by
  rw [follow_append]
  exact Outcome.bind_ok

/-- A change along what a value holds is a change inside what the first step leads to. -/
theorem replace_cons_held (hs : s.isHeld = true) (h : v.read s = .ok x) :
    v.replace (s :: rest) new = v.put s (x.replace rest new) := by
  have hcomputed : ∀ c, s ≠ .computed c := by
    rintro c rfl
    cases hs
  rw [replace, h]
  cases rest with
  | nil => rfl
  | cons t rest => exact putInside_eq_put hcomputed

theorem replace_cons (hs : s.isDocumented = true) (h : v.read s = .ok x) :
    v.replace (s :: rest) new = v.put s (x.replace rest new) :=
  replace_cons_held (Step.isHeld_of_isDocumented hs) h

/-- A change further on is a change inside what the steps before lead to. -/
theorem replace_append_held (hd : ∀ s ∈ before, s.isHeld = true) (h : v.follow before = .ok x) :
    v.replace (before ++ rest) new = v.replace before (x.replace rest new) := by
  induction before generalizing v with
  | nil =>
    obtain rfl := by simpa [follow] using h
    rfl
  | cons s before ih =>
    rw [List.forall_mem_cons] at hd
    obtain ⟨y, hy, hx⟩ := follow_cons.1 h
    rw [List.cons_append, replace_cons_held hd.1 hy, replace_cons_held hd.1 hy, ih hd.2 hx]

theorem replace_append (hd : ∀ s ∈ before, s.isDocumented = true) (h : v.follow before = .ok x) :
    v.replace (before ++ rest) new = v.replace before (x.replace rest new) :=
  replace_append_held (fun s hs => Step.isHeld_of_isDocumented (hd s hs)) h

/-- What is put at the end of several steps is read there. -/
theorem follow_replace_self (hd : ∀ s ∈ steps, s.isDocumented = true)
    (h : v.follow steps = .ok old) : (v.replace steps new).follow steps = .ok new := by
  induction steps generalizing v with
  | nil => rfl
  | cons s rest ih =>
    rw [List.forall_mem_cons] at hd
    obtain ⟨x, hx, hrest⟩ := follow_cons.1 h
    rw [replace_cons hd.1 hx]
    exact follow_cons.2 ⟨_, read_put_self hd.1 hx, ih hd.2 hrest⟩

/-- Of two values that are put at the end of the same steps the second counts. -/
theorem replace_replace (hd : ∀ s ∈ steps, s.isDocumented = true) (h : v.follow steps = .ok old) :
    (v.replace steps x).replace steps y = v.replace steps y := by
  induction steps generalizing v with
  | nil => rfl
  | cons s rest ih =>
    rw [List.forall_mem_cons] at hd
    obtain ⟨z, hz, hrest⟩ := follow_cons.1 h
    rw [replace_cons hd.1 hz, replace_cons hd.1 (read_put_self hd.1 hz), put_put_self hd.1 hz,
      ih hd.2 hrest, replace_cons hd.1 hz]

/-- What the steps on the way lead to is changed inside. -/
theorem follow_replace_before (hd : ∀ s ∈ before ++ rest, s.isDocumented = true)
    (h : v.follow before = .ok x) :
    (v.replace (before ++ rest) new).follow before = .ok (x.replace rest new) := by
  rw [List.forall_mem_append] at hd
  rw [replace_append hd.1 h]
  exact follow_replace_self hd.1 h

/-- What stands where the steps do not lead stays. -/
theorem follow_replace_of_apart (hd : ∀ s ∈ steps, s.isDocumented = true)
    (hd' : ∀ s ∈ other, s.isDocumented = true) (hin : ¬ steps <+: other) (hout : ¬ other <+: steps)
    (h : v.follow steps = .ok old) : (v.replace steps new).follow other = v.follow other := by
  induction steps generalizing v other with
  | nil => exact absurd List.nil_prefix hin
  | cons s rest ih =>
    cases other with
    | nil => exact absurd List.nil_prefix hout
    | cons t other =>
      rw [List.forall_mem_cons] at hd hd'
      obtain ⟨x, hx, hrest⟩ := follow_cons.1 h
      rw [replace_cons hd.1 hx, follow, follow]
      by_cases hst : s = t
      · subst hst
        rw [List.cons_prefix_cons, not_and] at hin hout
        rw [read_put_self hd.1 hx, hx, Outcome.ok_bind, Outcome.ok_bind,
          ih hd.2 hd'.2 (hin rfl) (hout rfl) hrest]
      · rw [read_put_of_ne hd.1 hd'.1 hst hx]

/-- Two changes in different parts can be made in either order. -/
theorem replace_replace_comm {a b : Value} (hd : ∀ s ∈ steps, s.isDocumented = true)
    (hd' : ∀ s ∈ other, s.isDocumented = true) (hin : ¬ steps <+: other) (hout : ¬ other <+: steps)
    (ha : v.follow steps = .ok a) (hb : v.follow other = .ok b) :
    (v.replace steps x).replace other y = (v.replace other y).replace steps x := by
  induction steps generalizing v other with
  | nil => exact absurd List.nil_prefix hin
  | cons s rest ih =>
    cases other with
    | nil => exact absurd List.nil_prefix hout
    | cons t other =>
      rw [List.forall_mem_cons] at hd hd'
      obtain ⟨p, hp, hrest⟩ := follow_cons.1 ha
      obtain ⟨q, hq, hother⟩ := follow_cons.1 hb
      rw [replace_cons hd.1 hp, replace_cons hd'.1 hq]
      by_cases hst : s = t
      · subst hst
        rw [List.cons_prefix_cons, not_and] at hin hout
        obtain rfl : p = q := by simpa [hp] using hq
        rw [replace_cons hd.1 (read_put_self hd.1 hp), replace_cons hd.1 (read_put_self hd.1 hp),
          put_put_self hd.1 hp, put_put_self hd.1 hp,
          ih hd.2 hd'.2 (hin rfl) (hout rfl) hrest hother]
      · have hq' : (v.put s (p.replace rest x)).read t = .ok q :=
          (read_put_of_ne hd.1 hd'.1 hst hp).trans hq
        have hp' : (v.put t (q.replace other y)).read s = .ok p :=
          (read_put_of_ne hd'.1 hd.1 (Ne.symm hst) hq).trans hp
        rw [replace_cons hd'.1 hq', replace_cons hd.1 hp', put_put_comm hd.1 hd'.1 hst hp hq]

end Value

end StoryWorld
