import StoryWorld.Proofs.Orderly

/-!
A change in one place of a story leaves the other places where they are.

A path is a sequence of look-ups, one for each name and one for each accessor, and each look-up
depends only on which parts a value has and on the ids of the items of a list. A change further
inside alters neither, unless it gives an item of a list another id. So a path leads to the same
place after a change that is not on its way, and reads there what it read.
-/

namespace StoryWorld

/-- Whether a step leads to an item of a list. -/
def Step.isItem : Step → Bool
  | item _ => true
  | _ => false

/-- Whether a step leads to what an item of a list goes by. -/
def Step.isId : Step → Bool
  | slot (.field name) | slot (.extra name) | slot (.attached name) => name == "id"
  | key name => name == "id"
  | _ => false

/-- Whether steps end at an item of a list, or at the `id` of one. -/
def Step.endAtItem : List Step → Bool
  | [] => false
  | [s] => s.isItem
  | s :: t :: rest => (s.isItem && t.isId && rest.isEmpty) || endAtItem (t :: rest)

theorem Step.endAtItem_item (before : List Step) (i : Nat) :
    endAtItem (before ++ [item i]) = true := by
  induction before with
  | nil => rfl
  | cons s before ih =>
    obtain ⟨t, rest, hrest⟩ : ∃ t rest, before ++ [item i] = t :: rest :=
      List.exists_cons_of_ne_nil (by simp)
    rw [hrest] at ih
    rw [List.cons_append, hrest, endAtItem, ih, Bool.or_true]

/-! ### Categories and ids after a change -/

namespace Value

variable {v w old new x : Value} {s : Step} {steps rest : List Step}

/-- A change inside a value does not change its category. -/
theorem category_put (hs : s.isDocumented = true) (h : v.read s = .ok old) :
    (v.put s new).category = v.category := by
  rcases read_documented hs h with ⟨kind, slots, n, rfl, rfl, -⟩ | ⟨es, k, rfl, rfl, -⟩ |
    ⟨xs, i, rfl, rfl, -⟩
  all_goals rfl

theorem category_replace (hd : ∀ t ∈ s :: rest, t.isDocumented = true)
    (h : v.follow (s :: rest) = .ok old) : (v.replace (s :: rest) new).category = v.category := by
  rw [List.forall_mem_cons] at hd
  obtain ⟨x, hx, -⟩ := follow_cons.1 h
  rw [replace_cons hd.1 hx, category_put hd.1 hx]

/-- What has parts is no text. -/
theorem category_ne_string (hs : s.isDocumented = true) (h : v.read s = .ok old) :
    v.category ≠ .string := by
  rcases read_documented hs h with ⟨kind, slots, n, rfl, rfl, -⟩ | ⟨es, k, rfl, rfl, -⟩ |
    ⟨xs, i, rfl, rfl, -⟩
  all_goals simp [category]

theorem equal_text_of_category (h : v.category ≠ .string) (id : String) :
    v.equal (.text id) = false := by
  cases v <;> first | rfl | simp_all [equal, category]

/-- Two values that an item of a list can be without being found under another id. -/
def SameId (v w : Value) : Prop := ∀ id, Locate.hasId id w = Locate.hasId id v

theorem sameId_of_idOf (h : Locate.idOf w = Locate.idOf v) : v.SameId w := fun id => by
  rw [Locate.hasId, Locate.hasId, h]

/-- A change of another part than the id, or of an id that is no text before or after, leaves an
item to be found as it was. -/
theorem sameId_put (hs : s.isDocumented = true) (h : v.read s = .ok old)
    (hid : s.isId = false ∨ old.category ≠ .string ∧ new.category ≠ .string) :
    v.SameId (v.put s new) := by
  rcases read_documented hs h with ⟨kind, slots, n, rfl, rfl, hget⟩ | ⟨es, k, rfl, rfl, hget⟩ |
    ⟨xs, i, rfl, rfl, -⟩
  · have hslot : ∀ m, m ≠ n → Table.get? m (Table.put n new slots) = Table.get? m slots :=
      fun m hm => Table.get?_put_of_ne hm new slots
    by_cases hn : n = .field "id" ∨ n = .extra "id"
    · have hsame := hid.resolve_left (by rcases hn with rfl | rfl <;> decide)
      have hnew := equal_text_of_category hsame.2
      have hold := equal_text_of_category hsame.1
      intro id
      rcases hn with rfl | rfl
      · simp [put, Locate.hasId, Locate.idOf, hget, hnew, hold]
      · simp only [put, Locate.hasId, Locate.idOf, hslot (.field "id") (by simp),
          hslot (.attached "id") (by simp), Table.get?_put_self, hget]
        cases (Table.get? (.field "id") slots).or (Table.get? (.attached "id") slots) with
        | none => simp [hnew, hold]
        | some held => rfl
    · rw [not_or] at hn
      refine sameId_of_idOf ?_
      have hattached : (Slot.attached "id") ≠ n := by
        rintro rfl
        cases hs
      simp only [put, Locate.idOf, hslot _ (Ne.symm hn.1), hslot _ (Ne.symm hn.2),
        hslot _ hattached]
  · by_cases hk : k = "id"
    · subst hk
      have hnew := equal_text_of_category (hid.resolve_left (by decide)).2
      have hold := equal_text_of_category (hid.resolve_left (by decide)).1
      intro id
      simp [put, Locate.hasId, Locate.idOf, hget, hnew, hold]
    · refine sameId_of_idOf ?_
      simp only [put, Locate.idOf, Table.get?_put_of_ne (Ne.symm hk)]
  · exact sameId_of_idOf rfl

/-- Whether each item of a list on the way of steps is found as before if something else is put at
their end. -/
def KeepsIds (new : Value) : Value → List Step → Prop
  | _, [] => True
  | v, s :: rest => ∀ x, v.read s = .ok x →
      (s.isItem = true → x.SameId (x.replace rest new)) ∧ KeepsIds new x rest

/-- A change further inside an item than its id leaves the item to be found as it was. -/
theorem sameId_replace (hd : ∀ t ∈ s :: rest, t.isDocumented = true)
    (h : v.follow (s :: rest) = .ok old) (hid : s.isId = false ∨ rest ≠ []) :
    v.SameId (v.replace (s :: rest) new) := by
  rw [List.forall_mem_cons] at hd
  obtain ⟨x, hx, hrest⟩ := follow_cons.1 h
  rw [replace_cons hd.1 hx]
  refine sameId_put hd.1 hx (hid.imp_right fun hne => ?_)
  obtain ⟨t, rest, rfl⟩ := List.exists_cons_of_ne_nil hne
  obtain ⟨y, hy, -⟩ := follow_cons.1 hrest
  rw [category_replace hd.2 hrest, and_self]
  rw [List.forall_mem_cons] at hd
  exact category_ne_string hd.2.1 hy

/-- No item is found under another id after a change that ends neither at an item nor at its id. -/
theorem keepsIds_of_endAtItem (hd : ∀ s ∈ steps, s.isDocumented = true)
    (h : v.follow steps = .ok old) (hend : Step.endAtItem steps = false) :
    KeepsIds new v steps := by
  induction steps generalizing v with
  | nil => trivial
  | cons s rest ih =>
    rw [List.forall_mem_cons] at hd
    obtain ⟨x, hx, hrest⟩ := follow_cons.1 h
    intro y hy
    obtain rfl : x = y := by simpa [hx] using hy
    cases rest with
    | nil => exact ⟨fun hs => by simp [Step.endAtItem, hs] at hend, trivial⟩
    | cons t rest =>
      rw [Step.endAtItem, Bool.or_eq_false_iff] at hend
      refine ⟨fun hs => sameId_replace hd.2 hrest ?_, ih hd.2 hrest hend.2⟩
      by_cases ht : t.isId = true
      · refine .inr ?_
        rintro rfl
        simp [hs, ht] at hend
      · exact .inl (by simpa using ht)

/-- What takes the place of something that is found as it is, neither a text, leaves every item
around it to be found as it was. -/
theorem sameId_of_category (hd : ∀ s ∈ steps, s.isDocumented = true) (h : v.follow steps = .ok old)
    (hsame : old.SameId new) (hold : old.category ≠ .string) (hnew : new.category ≠ .string) :
    v.SameId (v.replace steps new) := by
  cases steps with
  | nil =>
    obtain rfl : v = old := by simpa [follow] using h
    exact hsame
  | cons s rest =>
    rw [List.forall_mem_cons] at hd
    obtain ⟨x, hx, hrest⟩ := follow_cons.1 h
    rw [replace_cons hd.1 hx]
    refine sameId_put hd.1 hx (.inr ?_)
    cases rest with
    | nil =>
      obtain rfl : x = old := by simpa [follow] using hrest
      exact ⟨hold, hnew⟩
    | cons t rest =>
      obtain ⟨y, hy, -⟩ := follow_cons.1 hrest
      rw [category_replace hd.2 hrest, and_self]
      exact category_ne_string (hd.2 t List.mem_cons_self) hy

/-- A number in the place of a number leaves every item to be found as it was. -/
theorem sameId_of_number {n m : Number} (hd : ∀ s ∈ steps, s.isDocumented = true)
    (h : v.follow steps = .ok (.number n)) : v.SameId (v.replace steps (.number m)) :=
  sameId_of_category hd h (sameId_of_idOf rfl) (by simp [category]) (by simp [category])

theorem keepsIds_of_number {n m : Number} (hd : ∀ s ∈ steps, s.isDocumented = true)
    (h : v.follow steps = .ok (.number n)) : KeepsIds (.number m) v steps := by
  induction steps generalizing v with
  | nil => trivial
  | cons s rest ih =>
    rw [List.forall_mem_cons] at hd
    obtain ⟨x, hx, hrest⟩ := follow_cons.1 h
    intro y hy
    obtain rfl : x = y := by simpa [hx] using hy
    exact ⟨fun _ => sameId_of_number hd.2 hrest, ih hd.2 hrest⟩

end Value

/-! ### Look-ups -/

namespace Locate

/-- One look-up on the way of a path: a name, or what an accessor selects inside what a name led
to. -/
inductive Lookup where
  | name (n : String)
  | inside (name : String) (accessor : Accessor)

/-- The step that a look-up makes. -/
def find (path : String) (v : Value) : Lookup → Outcome Step
  | .name n => child path v n
  | .inside name accessor => access path name v accessor

/-- The look-ups of a segment. -/
def lookups (segment : Segment) : List Lookup :=
  match segment.accessor with
  | none => [.name segment.name]
  | some accessor => [.name segment.name, .inside segment.name accessor]

/-- Look-ups that lead from a value along steps. What the last one leads to is not looked into. -/
inductive Leads (path : String) : Value → List Lookup → List Step → Prop
  | last {v : Value} {l : Lookup} {s : Step} (h : find path v l = .ok s) : Leads path v [l] [s]
  | next {v w : Value} {l : Lookup} {s : Step} {ls : List Lookup} {steps : List Step}
    (h : find path v l = .ok s) (hw : v.read s = .ok w) (hrest : Leads path w ls steps) :
    Leads path v (l :: ls) (s :: steps)

variable {path : String} {v w new : Value} {l : Lookup} {ls more : List Lookup} {s : Step}
  {steps : List Step}

theorem lookups_ne_nil (segment : Segment) : lookups segment ≠ [] := by
  unfold lookups
  split <;> simp

theorem not_leads_nil : ¬ Leads path v [] steps := by
  rintro ⟨⟩

theorem leads_singleton : Leads path v [l] steps ↔ ∃ s, find path v l = .ok s ∧ steps = [s] := by
  constructor
  · rintro (h | ⟨-, -, ⟨⟩⟩)
    exact ⟨_, h, rfl⟩
  · rintro ⟨s, h, rfl⟩
    exact .last h

/-- Look-ups after others start from what those lead to. -/
theorem leads_append (hls : ls ≠ []) (hmore : more ≠ []) : Leads path v (ls ++ more) steps ↔
    ∃ first w rest, Leads path v ls first ∧ v.follow first = .ok w ∧ Leads path w more rest ∧
      steps = first ++ rest := by
  induction ls generalizing v steps with
  | nil => exact absurd rfl hls
  | cons l ls ih =>
    constructor
    · intro h
      cases ls with
      | nil =>
        cases h with
        | last h => exact absurd rfl hmore
        | next h hw hrest =>
          exact ⟨[_], _, _, .last h, Value.follow_cons.2 ⟨_, hw, rfl⟩, hrest, rfl⟩
      | cons l' ls =>
        cases h with
        | next h hw hrest =>
          obtain ⟨first, x, rest, hfirst, hx, hmore', rfl⟩ := (ih (by simp)).1 hrest
          exact ⟨_ :: first, x, rest, .next h hw hfirst, Value.follow_cons.2 ⟨_, hw, hx⟩, hmore',
            rfl⟩
    · rintro ⟨first, x, rest, hfirst, hx, hmore', rfl⟩
      cases hfirst with
      | last h =>
        obtain ⟨y, hy, hnil⟩ := Value.follow_cons.1 hx
        obtain rfl : y = x := by simpa [Value.follow] using hnil
        exact .next h hy hmore'
      | next h hw hrest =>
        obtain ⟨y, hy, hfollow⟩ := Value.follow_cons.1 hx
        obtain rfl := Except.ok.inj (hw.symm.trans hy)
        have hne : ls ≠ [] := by
          rintro rfl
          exact not_leads_nil hrest
        exact .next h hw ((ih hne).2 ⟨_, x, rest, hrest, hfollow, hmore', rfl⟩)

theorem stepsOf_ok {segment : Segment} :
    stepsOf path v segment = .ok steps ↔ Leads path v (lookups segment) steps := by
  unfold stepsOf lookups
  cases segment.accessor with
  | none =>
    rw [Outcome.bind_ok, leads_singleton]
    simp only [Outcome.pure_ok, find, eq_comm (b := steps)]
  | some accessor =>
    constructor
    · intro h
      obtain ⟨first, hfirst, h⟩ := Outcome.bind_ok.1 h
      obtain ⟨w, hw, h⟩ := Outcome.bind_ok.1 h
      obtain ⟨second, hsecond, h⟩ := Outcome.bind_ok.1 h
      obtain rfl := Outcome.pure_ok.1 h
      exact .next hfirst hw (.last hsecond)
    · intro h
      cases h with
      | next h hw hrest =>
        obtain ⟨second, hsecond, rfl⟩ := leads_singleton.1 hrest
        exact Outcome.bind_ok.2 ⟨_, h, Outcome.bind_ok.2 ⟨_, hw,
          Outcome.bind_ok.2 ⟨_, hsecond, rfl⟩⟩⟩

/-- A path leads along steps if its look-ups do, one after the other. -/
theorem stepsFrom_ok : ∀ {v : Value} {segments : List Segment} {steps : List Step}, segments ≠ [] →
    (stepsFrom path v segments = .ok steps ↔ Leads path v (segments.flatMap lookups) steps)
  | v, [], steps, h => absurd rfl h
  | v, [segment], steps, _ => by
    rw [stepsFrom, stepsOf_ok, List.flatMap_cons, List.flatMap_nil, List.append_nil]
  | v, segment :: next :: rest, steps, _ => by
    have hrest : (next :: rest).flatMap lookups ≠ [] := by
      simp [lookups_ne_nil next]
    have ih := fun (w : Value) (steps : List Step) =>
      @stepsFrom_ok w (next :: rest) steps (List.cons_ne_nil next rest)
    rw [List.flatMap_cons, leads_append (lookups_ne_nil segment) hrest]
    simp only [stepsFrom, Outcome.bind_ok, stepsOf_ok, ih, Outcome.pure_ok]
    constructor
    · rintro ⟨first, hfirst, x, hx, more, hmore, rfl⟩
      exact ⟨first, x, more, hfirst, hx, hmore, rfl⟩
    · rintro ⟨first, x, more, hfirst, hx, hmore, rfl⟩
      exact ⟨first, hfirst, x, hx, more, hmore, rfl⟩

theorem locate_ok {segments : List Segment} : locate path v segments = .ok steps ↔
    segments ≠ [] ∧ Leads path v (segments.flatMap lookups) steps := by
  unfold locate
  by_cases h : segments = []
  · simp [h]
  · rw [if_neg (by simpa using h), stepsFrom_ok h]
    simp [h]

/-! ### What a change leaves alone -/

theorem fieldStep?_put {kind : Kind} {slots : List (Slot × Value)} {n : Slot}
    (hhas : Table.has n slots = true) (name : String) :
    fieldStep? kind (Table.put n new slots) name = fieldStep? kind slots name := by
  unfold fieldStep? Value.extraStep
  simp only [Table.has_put hhas]

/-- A look-up makes the same step after a change inside another part, and after one inside its own
if that leaves the items of a list to be found as they were. -/
theorem find_put {x y : Value} (hs : s.isDocumented = true) (hx : v.read s = .ok x)
    (hid : s.isItem = true → x.SameId y) {t : Step} (h : find path v l = .ok t) :
    find path (v.put s y) l = .ok t := by
  have hchild : ∀ name, child path v name = .ok t → child path (v.put s y) name = .ok t := by
    intro name h
    rcases Value.read_documented hs hx with ⟨kind, slots, n, rfl, rfl, hget⟩ |
      ⟨es, k, rfl, rfl, hget⟩ | ⟨xs, i, rfl, rfl, hget⟩
    · simp only [Value.put, child] at h ⊢
      rwa [fieldStep?_put (Table.has_iff.2 ⟨x, hget⟩)]
    · simp only [Value.put, child] at h ⊢
      rwa [Table.has_put (Table.has_iff.2 ⟨x, hget⟩)]
    · have hfind : (xs.set i y).findIdx? (hasId name) = xs.findIdx? (hasId name) := by
        have hmap := Value.map_set_eq hget (hid rfl name)
        have hfindIdx : ∀ zs : List Value,
            zs.findIdx? (hasId name) = (zs.map (hasId name)).findIdx? id := fun zs => by
          rw [List.findIdx?_map]
          rfl
        rw [hfindIdx, hmap, ← hfindIdx]
      simp only [Value.put, child] at h ⊢
      rwa [hfind]
  cases l with
  | name n => exact hchild n h
  | inside name accessor =>
    cases accessor with
    | key k => exact hchild k h
    | position j =>
      rcases Value.read_documented hs hx with ⟨kind, slots, n, rfl, rfl, hget⟩ |
        ⟨es, k, rfl, rfl, hget⟩ | ⟨xs, i, rfl, rfl, hget⟩
      · cases h
      · cases h
      · simpa only [Value.put, find, access, List.length_set] using h

/-- Look-ups lead along the same steps after a change that is not on their way. -/
theorem Leads.replace (h : Leads path v ls steps) (hsteps : ∀ s ∈ steps, s.isDocumented = true) :
    ∀ {changed : List Step} {old : Value}, (∀ s ∈ changed, s.isDocumented = true) →
      v.follow changed = .ok old → Value.KeepsIds new v changed →
      (∀ t rest, steps ≠ changed ++ t :: rest) → Leads path (v.replace changed new) ls steps := by
  induction h with
  | last h =>
    intro changed old hd hold hids haway
    cases changed with
    | nil => exact absurd rfl (haway _ _)
    | cons s rest =>
      rw [List.forall_mem_cons] at hd
      obtain ⟨x, hx, -⟩ := Value.follow_cons.1 hold
      rw [Value.replace_cons hd.1 hx]
      exact .last (find_put hd.1 hx (hids x hx).1 h)
  | @next v w l t ls steps h hw hrest ih =>
    intro changed old hd hold hids haway
    rw [List.forall_mem_cons] at hsteps
    cases changed with
    | nil => exact absurd rfl (haway _ _)
    | cons s rest =>
      rw [List.forall_mem_cons] at hd
      obtain ⟨x, hx, hfollow⟩ := Value.follow_cons.1 hold
      rw [Value.replace_cons hd.1 hx]
      have hfind := find_put (y := x.replace rest new) hd.1 hx (hids x hx).1 h
      by_cases hst : s = t
      · subst hst
        obtain rfl := Except.ok.inj (hx.symm.trans hw)
        refine .next hfind (Value.read_put_self hd.1 hx) (ih hsteps.2 hd.2 hfollow (hids x hx).2 ?_)
        rintro t' rest' rfl
        exact haway _ _ rfl
      · exact .next hfind ((Value.read_put_of_ne hd.1 hsteps.1 hst hx).trans hw) hrest

/-! ### Places can be read -/

theorem declared?_mem {kind : Kind} {name field : String} (h : declared? kind name = some field) :
    ∃ f ∈ kind.fields, f.1.name = field := by
  unfold declared? at h
  split at h
  · obtain rfl := Option.some.inj h
    exact ⟨_, List.mem_of_find?_eq_some ‹_›, rfl⟩
  · obtain ⟨f, hf, rfl⟩ := Option.map_eq_some_iff.1 h
    exact ⟨f, List.mem_of_find?_eq_some hf, rfl⟩

/-- The step to an extra field leads to what was put beside the document for its name, or to the
field itself, unless something computed or built in is in the way. -/
theorem extraStep_held {kind : Kind} {slots : List (Slot × Value)} {name : String}
    (h : (Value.extraStep kind slots name).isHeld = true) :
    (∃ slot, (slot = .attached name ∨ slot = .given) ∧ Table.has slot slots = true ∧
        Value.extraStep kind slots name = .slot slot) ∨
      Value.extraStep kind slots name = .slot (.extra name) := by
  unfold Value.extraStep at h ⊢
  by_cases hcomputed : (Value.computedNames kind).contains name = true
  · rw [if_pos hcomputed] at h
    cases h
  · rw [if_neg hcomputed] at h ⊢
    cases hmember : kind.member? name with
    | some member =>
      simp only [hmember] at h ⊢
      cases hslot : member.slot? name with
      | none =>
        rw [hslot] at h
        cases h
      | some slot =>
        simp only [hslot] at h ⊢
        by_cases hhas : Table.has slot slots = true
        · exact .inl ⟨slot, Member.eq_of_slot? hslot, hhas, if_pos hhas⟩
        · rw [if_neg hhas] at h
          cases h
    | none =>
      simp only
      by_cases hattached : Table.has (.attached name) slots = true
      · exact .inl ⟨_, .inl rfl, hattached, if_pos hattached⟩
      · exact .inr (if_neg hattached)

/-- Whether a value holds every field that its kind declares. -/
def HoldsFields : Value → Prop
  | .entity kind slots => ∀ f ∈ kind.fields, Table.has (.field f.1.name) slots = true
  | _ => True

/-- The step to a field that is held can be read: a declared field of an entity is there, and any
other is looked up. -/
theorem fieldStep_read {kind : Kind} {slots : List (Slot × Value)} {name : String}
    (hv : HoldsFields (.entity kind slots)) (hs : s.isHeld = true)
    (h : fieldStep? kind slots name = some s) : ∃ w, (Value.entity kind slots).read s = .ok w := by
  unfold fieldStep? at h
  cases hdeclared : declared? kind name with
  | some field =>
    rw [hdeclared] at h
    obtain rfl := Option.some.inj h
    obtain ⟨f, hf, rfl⟩ := declared?_mem hdeclared
    obtain ⟨w, hw⟩ := Table.has_iff.1 (hv f hf)
    exact ⟨w, Value.read_slot.2 hw⟩
  | none =>
    rw [hdeclared] at h
    by_cases hhas : Table.has (.extra name) slots = true
    · obtain rfl := Option.some.inj ((if_pos hhas).symm.trans h)
      rcases extraStep_held hs with ⟨slot, -, hslot, hstep⟩ | hstep
      · obtain ⟨w, hw⟩ := Table.has_iff.1 hslot
        exact ⟨w, by rw [hstep, Value.read_slot, hw]⟩
      · obtain ⟨w, hw⟩ := Table.has_iff.1 hhas
        exact ⟨w, by rw [hstep, Value.read_slot, hw]⟩
    · exact nomatch (if_neg hhas).symm.trans h

theorem child_read {name : String} (hv : HoldsFields v) (hs : s.isHeld = true)
    (h : child path v name = .ok s) : ∃ w, v.read s = .ok w := by
  unfold child at h
  split at h
  · split at h
    · rename_i step hstep
      cases h
      exact fieldStep_read hv hs hstep
    · cases h
  · split at h
    · rename_i hhas
      cases h
      obtain ⟨w, hw⟩ := Table.has_iff.1 hhas
      exact ⟨w, Value.read_key.2 hw⟩
    · cases h
  · split at h
    · rename_i i hi
      cases h
      obtain ⟨hlt, -⟩ := List.findIdx?_eq_some_iff_getElem.1 hi
      exact ⟨_, Value.read_item.2 (List.getElem?_eq_getElem hlt)⟩
    · cases h
  · cases h

/-- A step that a look-up makes to what a value holds can be read. -/
theorem find_read (hv : HoldsFields v) (hs : s.isHeld = true) (h : find path v l = .ok s) :
    ∃ w, v.read s = .ok w := by
  cases l with
  | name n => exact child_read hv hs h
  | inside name accessor =>
    cases accessor with
    | key k => exact child_read hv hs h
    | position i =>
      simp only [find, access] at h
      split at h
      · split at h
        · rename_i hi
          cases h
          exact ⟨_, Value.read_item.2 (List.getElem?_eq_getElem hi)⟩
        · cases h
      · cases h

theorem holdsFields_of_orderly (hv : v.Orderly) : HoldsFields v := by
  cases hv with
  | entity hkeys _ =>
    obtain ⟨extra, hextra, -⟩ := hkeys
    intro f hf
    rw [Table.has_iff_mem, hextra]
    exact List.mem_append_left _ (List.mem_map.2 ⟨f, hf, rfl⟩)
  | _ => trivial

/-- Steps that look-ups lead along can be followed, if what they lead from lets them be read. -/
theorem Leads.follow_of {P : Value → Prop} {ok : Step → Prop}
    (hfind : ∀ v l s, P v → ok s → find path v l = .ok s → ∃ w, v.read s = .ok w ∧ P w)
    (h : Leads path v ls steps) (hv : P v) (hsteps : ∀ s ∈ steps, ok s) :
    ∃ w, v.follow steps = .ok w ∧ P w := by
  induction h with
  | last h =>
    obtain ⟨w, hw, hP⟩ := hfind _ _ _ hv (hsteps _ List.mem_cons_self) h
    exact ⟨w, Value.follow_cons.2 ⟨w, hw, rfl⟩, hP⟩
  | next h hw hrest ih =>
    rw [List.forall_mem_cons] at hsteps
    obtain ⟨_, hread, hP⟩ := hfind _ _ _ hv hsteps.1 h
    obtain rfl := Except.ok.inj (hread.symm.trans hw)
    obtain ⟨x, hx, hP⟩ := ih hP hsteps.2
    exact ⟨x, Value.follow_cons.2 ⟨_, hw, hx⟩, hP⟩

/-- The steps along the document that look-ups lead along can be followed. -/
theorem Leads.follow (h : Leads path v ls steps) (hv : v.Orderly)
    (hsteps : ∀ s ∈ steps, s.isDocumented = true) : ∃ w, v.follow steps = .ok w := by
  have hfind : ∀ v l s, Value.Orderly v → s.isDocumented = true → find path v l = .ok s →
      ∃ w, v.read s = .ok w ∧ w.Orderly := by
    intro v l s hv hs hfind
    obtain ⟨w, hw⟩ := find_read (holdsFields_of_orderly hv) (Step.isHeld_of_isDocumented hs) hfind
    exact ⟨w, hw, hv.read hs hw⟩
  obtain ⟨w, hw, -⟩ := h.follow_of hfind hv hsteps
  exact ⟨w, hw⟩

end Locate

end StoryWorld
