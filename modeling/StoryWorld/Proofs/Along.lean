import StoryWorld.Proofs.RereadEntities

/-!
Changes along a path, and what is read again after them.

A change somewhere inside a value is a change in the innermost slot on the way to it; what the other
slots hold stays. So a value that was read again before such a change is read again after it just if
what that slot holds now is. The proof goes along the steps: what a step leads to is read again just
if the whole is, since its neighbours were read again before.
-/

namespace StoryWorld

/-- Whether a step leads to a slot of an entity. -/
def Step.isSlot : Step → Bool
  | slot _ => true
  | _ => false

namespace Value

/-- Whether what the innermost slot on a way holds is read again, with so many levels left where the
way starts. -/
def lastsAlong : Nat → Value → List Step → Bool
  | _, _, [] => true
  | depth, v, s :: rest =>
    match v.read s with
    | .error _ => true
    | .ok x =>
      if rest.any Step.isSlot then lastsAlong (depth - 1) x rest
      else
        match v, s with
        | entity kind _, .slot slot => Schema.rereadsSlot (depth - 1) kind slot x
        | _, _ => true

/-- Slots that hold the same as others apart from one of them and from what was attached. What is
attached now was before, or it has a private name. -/
structure SameBeside (n : Slot) (slots slots' : List (Slot × Value)) : Prop where
  same : ∀ m, m ≠ n → (∀ name, m ≠ .attached name) → Table.get? m slots' = Table.get? m slots
  attached : ∀ name, Slot.attached name ∈ Table.keys slots' →
    Slot.attached name ∈ Table.keys slots ∨ Assign.isPrivate name = true

theorem SameBeside.refl (n : Slot) (slots : List (Slot × Value)) : SameBeside n slots slots :=
  ⟨fun _ _ _ => rfl, fun _ => .inl⟩

theorem sameBeside_put {n : Slot} {slots : List (Slot × Value)} (hn : n ∈ Table.keys slots)
    (v : Value) : SameBeside n slots (Table.put n v slots) where
  same _ hm _ := Table.get?_put_of_ne hm _ _
  attached name hname := by
    rw [Table.keys_put (Table.has_iff_mem.2 hn)] at hname
    exact .inl hname

/-- A value and what it is after a change on a way: in the innermost slot on the way everything may
be different, and what was attached may be. -/
inductive ChangedAlong : Value → Value → List Step → Prop
  | slot {kind : Kind} {slots slots' : List (Slot × Value)} {n : Slot} {rest : List Step}
    (hrest : rest.any Step.isSlot = false) (hsame : SameBeside n slots slots') :
    ChangedAlong (entity kind slots) (entity kind slots') (.slot n :: rest)
  | inside {v x x' : Value} {s : Step} {rest : List Step} (hs : s.isHeld = true)
    (hx : v.read s = .ok x) (hrest : rest.any Step.isSlot = true) (h : ChangedAlong x x' rest) :
    ChangedAlong v (v.put s x') (s :: rest)

variable {v v' w w' x : Value} {s last : Step} {before steps rest : List Step}

theorem entity_of_read {n : Slot} (h : v.read (.slot n) = .ok w) :
    ∃ kind slots, v = entity kind slots ∧ Table.get? n slots = some w := by
  rcases read_held rfl h with ⟨kind, slots, _, rfl, heq, hget⟩ | ⟨_, _, -, ⟨⟩, -⟩ |
    ⟨_, _, -, ⟨⟩, -⟩
  obtain rfl := Step.slot.inj heq
  exact ⟨kind, slots, rfl, hget⟩

theorem isDocument_read (hd : v.isDocument = true) (hs : s.isHeld = true)
    (h : v.read s = .ok x) : x.isDocument = true := by
  rcases read_held hs h with ⟨kind, slots, n, rfl, rfl, -⟩ | ⟨es, k, rfl, rfl, hget⟩ |
    ⟨xs, i, rfl, rfl, hget⟩
  · cases hd
  · exact (isDocument_mapping.1 hd).2 _ (Table.mem_of_get? hget)
  · exact isDocument_list.1 hd _ (List.mem_of_getElem? hget)

/-- There are no slots in a document. -/
theorem ChangedAlong.not_document (h : ChangedAlong v v' steps) :
    v.isDocument ≠ true ∧ v'.isDocument ≠ true := by
  induction h with
  | slot => exact ⟨nofun, nofun⟩
  | inside hs hx _ _ ih =>
    exact ⟨fun hd => ih.1 (isDocument_read hd hs hx),
      fun hd => ih.2 (isDocument_read hd hs (read_put_held hs hx))⟩

/-- A change of what holds the end of a way is a change along the way, if what is around the last
slot of the way stays. -/
theorem changedAlong_replace (hs : ∀ s ∈ before, s.isHeld = true) (hw : v.follow before = .ok w)
    (hslot : (before ++ [last]).any Step.isSlot = true)
    (hlast : ∀ n, last = .slot n → ∃ kind slots slots', w = entity kind slots ∧
      w' = entity kind slots' ∧ SameBeside n slots slots') :
    ChangedAlong v (v.replace before w') (before ++ [last]) := by
  induction before generalizing v with
  | nil =>
    obtain rfl := by simpa [follow] using hw
    cases last with
    | slot n =>
      obtain ⟨kind, slots, slots', rfl, rfl, hsame⟩ := hlast n rfl
      exact .slot rfl hsame
    | _ => cases hslot
  | cons s rest ih =>
    rw [List.forall_mem_cons] at hs
    obtain ⟨x, hx, hrest⟩ := follow_cons.1 hw
    rw [replace_cons_held hs.1 hx, List.cons_append]
    by_cases hmore : (rest ++ [last]).any Step.isSlot = true
    · exact .inside hs.1 hx hmore (ih hs.2 hrest hmore)
    · rw [Bool.not_eq_true] at hmore
      rw [List.cons_append, List.any_cons, hmore, Bool.or_false] at hslot
      rcases read_held hs.1 hx with ⟨kind, slots, n, rfl, rfl, hget⟩ | ⟨_, _, -, rfl, -⟩ |
        ⟨_, _, -, rfl, -⟩
      · exact .slot hmore (sameBeside_put (Table.mem_keys_of_get? hget) _)
      · cases hslot
      · cases hslot

end Value

namespace Schema

open Value

variable {shape : Shape} {v v' x x' : Value} {depth : Nat} {steps : List Step}

/-- A declared field with entities inside has no rule: it is read again if what it holds is. -/
theorem rereadsField_eq {kind : Kind} {f : Field × Shape} (hkind : kind.inStory = true)
    (hf : f ∈ kind.fields) (hs : Stands f.2 x) (hx : x.isDocument ≠ true) :
    rereadsField depth f x = rereads depth f.2 x := by
  have hfree : f.1.rule = .free := by
    have hplain : ∀ shape : Shape, shape = .real ∨ shape = .number → ¬Stands shape x := by
      rintro _ (rfl | rfl) hs <;>
      · cases hs with
        | document hd => exact hx hd
    rcases (storableFields_kind hkind f hf).1.rule with hfree | ⟨-, hshape⟩
    · exact hfree
    · exact absurd hs (hplain f.2 hshape)
  rw [rereadsField, rereads, hfree]
  cases reread? depth f.2 x <;> rfl

/-- What stands in the place of something else is read again, with all around it, just if it is. -/
theorem forall_set_iff {p : Value → Prop} {xs : List Value} {i : Nat} {y : Value}
    (hget : xs[i]? = some x) (h : ∀ z ∈ xs, p z) : (∀ z ∈ xs.set i y, p z) ↔ p y := by
  refine ⟨fun hset => hset y ?_, fun hy z hz => ?_⟩
  · exact List.mem_set (List.getElem?_eq_some_iff.1 hget).1 y
  · rcases List.mem_or_eq_of_mem_set hz with hz | rfl
    · exact h z hz
    · exact hy

theorem forall_put_iff {p : Value → Prop} {es : List (String × Value)} {k : String} {y : Value}
    (h : ∀ e ∈ es, p e.2) : (∀ e ∈ Table.put k y es, p e.2) ↔ p y := by
  refine ⟨fun hput => ?_, fun hy e he => ?_⟩
  · exact hput (k, y) (Table.mem_of_get? (Table.get?_put_self k y es))
  · rcases Table.mem_put he with rfl | he
    · exact hy
    · exact h e he

/-- An entity with other slots is read again just if what they hold is, if it was before with the
slots apart from one. -/
theorem rereads_entity_changed {kind : Kind} {slots slots' : List (Slot × Value)} {n : Slot}
    (h : IsStanding kind slots) (hc : (Value.entity kind slots).Complete)
    (h' : IsStanding kind slots') (hc' : (Value.entity kind slots').Complete)
    (hsame : SameBeside n slots slots')
    (hr : rereads depth kind.shape (.entity kind slots) = true) :
    rereads depth kind.shape (.entity kind slots') = true ↔
      ∀ y, Table.get? n slots' = some y → rereadsSlot (depth - 1) kind n y = true := by
  obtain ⟨d, rfl, hslots⟩ := (rereads_entity h hc).1 hr
  rw [rereads_entity h' hc', Nat.add_sub_cancel]
  constructor
  · rintro ⟨d', hd, hslots'⟩
    obtain rfl := Nat.succ.inj hd
    exact hslots' n
  · refine fun hn => ⟨d, rfl, fun m y hy => ?_⟩
    by_cases hm : m = n
    · subst hm
      exact hn y hy
    · cases m with
      | attached name => rfl
      | given => rfl
      | field name => exact hslots _ _ ((hsame.same _ hm (by simp)).symm.trans hy)
      | extra name => exact hslots _ _ ((hsame.same _ hm (by simp)).symm.trans hy)

/-- A mapping with an entity inside, and with another in its place, is declared to hold what they
are. -/
theorem stands_put {es : List (String × Value)} {k : String} (hget : Table.get? k es = some x)
    (hx : x.isDocument ≠ true) (hx' : x'.isDocument ≠ true) (hv : Stands shape (.mapping es))
    (hv' : Stands shape (.mapping (Table.put k x' es))) :
    ∃ item, shape.core = .mapping item ∧ (Table.keys es).Nodup ∧
      (Table.keys (Table.put k x' es)).Nodup ∧ (∀ e ∈ es, Stands item e.2) ∧
      ∀ e ∈ Table.put k x' es, Stands item e.2 := by
  rcases stands_mapping.1 hv with hd | ⟨item, hcore, hkeys, hall⟩
  · exact absurd ((isDocument_mapping.1 hd).2 _ (Table.mem_of_get? hget)) hx
  rcases stands_mapping.1 hv' with hd | ⟨item', hcore', hkeys', hall'⟩
  · have hmem := Table.mem_of_get? (Table.get?_put_self k x' es)
    exact absurd ((isDocument_mapping.1 hd).2 _ hmem) hx'
  · obtain rfl : item = item' := by simpa [hcore] using hcore'
    exact ⟨item, hcore, hkeys, hkeys', hall, hall'⟩

/-- So is a list. -/
theorem stands_set {xs : List Value} {i : Nat} (hget : xs[i]? = some x) (hx : x.isDocument ≠ true)
    (hx' : x'.isDocument ≠ true) (hv : Stands shape (.list xs))
    (hv' : Stands shape (.list (xs.set i x'))) :
    ∃ item, shape.core = .list item ∧ (∀ y ∈ xs, Stands item y) ∧ ∀ y ∈ xs.set i x', Stands item y := by
  rcases stands_list.1 hv with hd | ⟨item, hcore, hall⟩
  · exact absurd (isDocument_list.1 hd _ (List.mem_of_getElem? hget)) hx
  rcases stands_list.1 hv' with hd | ⟨item', hcore', hall'⟩
  · have hmem : x' ∈ xs.set i x' := List.mem_set (List.getElem?_eq_some_iff.1 hget).1 x'
    exact absurd (isDocument_list.1 hd _ hmem) hx'
  · obtain rfl : item = item' := by simpa [hcore] using hcore'
    exact ⟨item, hcore, hall, hall'⟩

section Inside

variable {goes : Nat → Prop} (hx : x.isDocument ≠ true) (hx' : x'.isDocument ≠ true)
  (hinside : ∀ {inner : Shape} {d : Nat}, Stands inner x → Stands inner x' →
    rereads d inner x = true → (rereads d inner x' = true ↔ goes d))
include hx hx' hinside

/-- An entity with another value in a slot is read again just if that value is, one level further
in. -/
theorem rereads_put_slot {kind : Kind} {slots : List (Slot × Value)} {n : Slot}
    (hget : Table.get? n slots = some x) (hv : Stands shape (.entity kind slots))
    (hv' : Stands shape (.entity kind (Table.put n x' slots)))
    (hc : (Value.entity kind slots).Complete)
    (hc' : (Value.entity kind (Table.put n x' slots)).Complete)
    (hr : rereads depth shape (.entity kind slots) = true) :
    rereads depth shape (.entity kind (Table.put n x' slots)) = true ↔ goes (depth - 1) := by
  obtain ⟨hcore, hstanding⟩ := stands_entity.1 hv
  obtain ⟨-, hstanding'⟩ := stands_entity.1 hv'
  have hget' := Table.get?_put_self n x' slots
  have hmem := Table.mem_keys_of_get? hget
  rw [← rereads_core (by simp [form]), hcore] at hr ⊢
  rw [rereads_entity_changed hstanding hc hstanding' hc' (sameBeside_put hmem x') hr]
  obtain ⟨d, rfl, hslots⟩ := (rereads_entity hstanding hc).1 hr
  simp only [hget', Option.some.injEq, forall_eq', Nat.add_sub_cancel]
  cases n with
  | extra name => exact absurd (hstanding.others _ x hget (by simp)) hx
  | attached name => exact absurd (hstanding.others _ x hget (by simp)) hx
  | given => exact absurd hmem hstanding.fits.given
  | field name =>
    obtain ⟨f, hf, rfl⟩ := (hstanding.fits.declared name).1 hmem
    have hfield : ∀ y, rereadsSlot d kind (.field f.1.name) y = rereadsField d f y := by
      intro y
      rw [rereadsSlot, Kind.field?, (inOrder_kind hstanding.inStory).find? hf]
      rfl
    have hstands := hstanding.declared f hf x hget
    have hstands' := hstanding'.declared f hf x' hget'
    have hbefore := hslots _ x hget
    rw [hfield, rereadsField_eq hstanding.inStory hf hstands hx] at hbefore
    rw [hfield, rereadsField_eq hstanding.inStory hf hstands' hx']
    exact hinside hstands hstands' hbefore

/-- So is a mapping. -/
theorem rereads_put_key {es : List (String × Value)} {k : String}
    (hget : Table.get? k es = some x) (hv : Stands shape (.mapping es))
    (hv' : Stands shape (.mapping (Table.put k x' es)))
    (hr : rereads depth shape (.mapping es) = true) :
    rereads depth shape (.mapping (Table.put k x' es)) = true ↔ goes (depth - 1) := by
  have hmem := Table.mem_of_get? hget
  have hmem' := Table.mem_of_get? (Table.get?_put_self k x' es)
  obtain ⟨item, hcore, hkeys, hkeys', hall, hall'⟩ := stands_put hget hx hx' hv hv'
  rw [← rereads_core (by simp [form]), hcore] at hr ⊢
  obtain ⟨d, rfl, hentries⟩ :=
    (rereads_mapping hkeys fun e he => storesAlike_of_stands (hall e he)).1 hr
  rw [rereads_mapping hkeys' fun e he => storesAlike_of_stands (hall' e he),
    Nat.add_sub_cancel, ← hinside (hall _ hmem) (hall' _ hmem') (hentries _ hmem),
    ← forall_put_iff (p := fun y => rereads d item y = true) (k := k) hentries]
  simp

/-- So is a list. -/
theorem rereads_set_item {xs : List Value} {i : Nat} (hget : xs[i]? = some x)
    (hv : Stands shape (.list xs)) (hv' : Stands shape (.list (xs.set i x')))
    (hr : rereads depth shape (.list xs) = true) :
    rereads depth shape (.list (xs.set i x')) = true ↔ goes (depth - 1) := by
  have hmem := List.mem_of_getElem? hget
  have hmem' : x' ∈ xs.set i x' := List.mem_set (List.getElem?_eq_some_iff.1 hget).1 x'
  obtain ⟨item, hcore, hall, hall'⟩ := stands_set hget hx hx' hv hv'
  rw [← rereads_core (by simp [form]), hcore] at hr ⊢
  obtain ⟨d, rfl, hitems⟩ :=
    (rereads_list fun x hx => storesAlike_of_stands (hall x hx)).1 hr
  rw [rereads_list fun x hx => storesAlike_of_stands (hall' x hx),
    Nat.add_sub_cancel, ← hinside (hall _ hmem) (hall' _ hmem') (hitems _ hmem),
    ← forall_set_iff (p := fun y => rereads d item y = true) hget hitems]
  simp

end Inside

/-- After a change along a way a value that was read again is read again just if what the innermost
slot on the way holds now is. -/
theorem rereads_changedAlong (h : ChangedAlong v v' steps) (hv : Stands shape v)
    (hv' : Stands shape v')
    (hc : ∀ way w, way <+: steps → v.follow way = .ok w → w.Complete)
    (hc' : ∀ way w, way <+: steps → v'.follow way = .ok w → w.Complete)
    (hr : rereads depth shape v = true) :
    rereads depth shape v' = true ↔ lastsAlong depth v' steps = true := by
  induction h generalizing shape depth with
  | @slot kind slots slots' n rest hrest hsame =>
    obtain ⟨hcore, hstanding⟩ := stands_entity.1 hv
    obtain ⟨-, hstanding'⟩ := stands_entity.1 hv'
    rw [← rereads_core (by simp [form]), hcore] at hr ⊢
    rw [rereads_entity_changed hstanding (hc [] _ List.nil_prefix rfl) hstanding'
      (hc' [] _ List.nil_prefix rfl) hsame hr, lastsAlong]
    cases hget : Table.get? n slots' with
    | none => simp [Value.read, hget]
    | some y => simp [Value.read, hget, hrest]
  | @inside v x x' s rest hs hx hrest h ih =>
    have hx' : (v.put s x').read s = .ok x' := read_put_held hs hx
    obtain ⟨hplain, hplain'⟩ := h.not_document
    -- What the step leads to goes on the same way, with one level less.
    have hinside : ∀ {inner : Shape} {d : Nat}, Stands inner x → Stands inner x' →
        rereads d inner x = true →
          (rereads d inner x' = true ↔ lastsAlong d x' rest = true) := by
      refine fun hs hs' hr => ih hs hs' (fun way w hway hw => ?_) (fun way w hway hw => ?_) hr
      · exact hc (s :: way) w (List.cons_prefix_cons.2 ⟨rfl, hway⟩) (follow_cons.2 ⟨x, hx, hw⟩)
      · exact hc' (s :: way) w (List.cons_prefix_cons.2 ⟨rfl, hway⟩) (follow_cons.2 ⟨x', hx', hw⟩)
    rw [lastsAlong, hx']
    simp only [hrest, if_true]
    have hcomplete := hc [] _ List.nil_prefix rfl
    have hcomplete' := hc' [] _ List.nil_prefix rfl
    rcases read_held hs hx with ⟨kind, slots, n, rfl, rfl, hget⟩ | ⟨es, k, rfl, rfl, hget⟩ |
      ⟨xs, i, rfl, rfl, hget⟩
    · exact rereads_put_slot hplain hplain' hinside hget hv hv' hcomplete hcomplete' hr
    · exact rereads_put_key hplain hplain' hinside hget hv hv' hr
    · exact rereads_set_item hplain hplain' hinside hget hv hv' hr

end Schema

end StoryWorld
