import StoryWorld.Expression.Evaluate
import StoryWorld.Proofs.Answers
import StoryWorld.Proofs.Views

/-!
What the paths of a condition are answered with.

The roles of a scene stand for entities that were read, and no secret, thread or asset is among
what they hold. So each step that a name finds in them can be read, also where a computed value or
a built-in name is in the way, and a path is followed to the end or refused. The values that are
derived from the story are there because its entities have the fields they are derived from.
-/

namespace StoryWorld

open Outcome

/-- The kinds of entity that are found in what a role stands for. -/
def Kind.inScene (kind : Kind) : Bool := kind.elsewhere && kind != .secret && kind != .thread

theorem Kind.table_of_member {kind : Kind} {name : String} {entries : List (String × Value)}
    (h : kind.member? name = some (.table entries)) :
    entries = kind.settings ∨ entries = kind.fieldTable ∨ entries = [] := by
  unfold member? at h
  repeat' split at h
  all_goals simp at h
  · exact .inl h.symm
  · exact .inr (.inl h.symm)
  · exact .inr (.inr h)

theorem Kind.isDocument_of_settings {kind : Kind} {e : String × Value} (h : e ∈ kind.settings) :
    e.2.isDocument = true := by
  unfold settings at h
  split at h
  all_goals
    simp at h
    rcases h with rfl | rfl | rfl <;> rfl

namespace Locate

variable {path : String} {v : Value} {l : Lookup} {s : Step}

theorem fieldStep_unheld {kind : Kind} {slots : List (Slot × Value)} {name : String}
    (hs : s.isHeld = false) (h : fieldStep? kind slots name = some s) :
    s = .computed name ∧ (Value.computedNames kind).contains name = true ∨
      ∃ member, s = .builtin name ∧ kind.member? name = some member := by
  unfold fieldStep? at h
  split at h
  · cases h
    cases hs
  · split at h
    · cases h
      unfold Value.extraStep at hs ⊢
      repeat' split at hs
      all_goals simp_all [Step.isHeld]
    · cases h

/-- A step to what a value does not hold leads to a computed value of an entity, or to what is built
into it. -/
theorem find_unheld (hs : s.isHeld = false) (h : find path v l = .ok s) :
    ∃ kind slots name, v = .entity kind slots ∧
      (s = .computed name ∧ (Value.computedNames kind).contains name = true ∨
        ∃ member, s = .builtin name ∧ kind.member? name = some member) := by
  have hchild : ∀ {name : String}, child path v name = .ok s → ∃ kind slots name,
      v = .entity kind slots ∧
      (s = .computed name ∧ (Value.computedNames kind).contains name = true ∨
        ∃ member, s = .builtin name ∧ kind.member? name = some member) := by
    intro name h
    cases v with
    | entity kind slots =>
      cases hstep : fieldStep? kind slots name with
      | none => simp [child, hstep] at h
      | some step =>
        obtain rfl : step = s := by simpa [child, hstep] using h
        exact ⟨kind, slots, name, rfl, fieldStep_unheld hs hstep⟩
    | mapping es =>
      simp only [child] at h
      split at h
      all_goals cases h
      cases hs
    | list xs =>
      simp only [child] at h
      split at h
      all_goals cases h
      cases hs
    | _ => cases h
  cases l with
  | name n => exact hchild h
  | inside name accessor =>
    cases accessor with
    | key k => exact hchild h
    | position i =>
      simp only [find, access] at h
      repeat' split at h
      all_goals cases h
      cases hs

end Locate

namespace Value

/-- A value whose entities are all of such kinds and hold what these declare. -/
inductive Intact : Value → Prop
  | null : Intact null
  | bool (b : Bool) : Intact (bool b)
  | number (n : Number) : Intact (number n)
  | text (s : String) : Intact (text s)
  | builtin (b : Builtin) : Intact (builtin b)
  | list {xs : List Value} (h : ∀ x ∈ xs, Intact x) : Intact (list xs)
  | mapping {es : List (String × Value)} (h : ∀ e ∈ es, Intact e.2) : Intact (mapping es)
  | entity {kind : Kind} {slots : List (Slot × Value)} (hkind : kind.inScene = true)
    (hfields : Locate.HoldsFields (entity kind slots)) (h : ∀ e ∈ slots, Intact e.2) :
    Intact (entity kind slots)

variable {v w x : Value} {kind : Kind} {slots : List (Slot × Value)} {name path : String}

theorem intact_of_isDocument (v : Value) (h : v.isDocument = true) : v.Intact := by
  induction v, h using document_induct with
  | null => exact .null
  | bool b => exact .bool b
  | number n => exact .number n
  | text s => exact .text s
  | list xs _ ih => exact .list ih
  | mapping es _ _ ih => exact .mapping ih

theorem get_of_holdsFields (h : Locate.HoldsFields (entity kind slots)) (name : String)
    {f : Field × Shape} (hf : kind.field? name = some f) :
    ∃ x, (entity kind slots).get name = .ok x := by
  obtain rfl : f.1.name = name := by simpa using List.find?_some hf
  obtain ⟨x, hx⟩ := Table.has_iff.1 (h f (List.mem_of_find?_eq_some hf))
  exact ⟨x, get_ok.2 ⟨_, _, rfl, hx⟩⟩

namespace Intact

theorem holdsFields (h : v.Intact) : Locate.HoldsFields v := by
  cases h with
  | entity _ hfields _ => exact hfields
  | _ => trivial

/-- Comparing with what stands under a role cannot fail. -/
theorem within (h : v.Intact) : v.within Kind.elsewhere = true := by
  induction h with
  | list _ ih => exact within_list.2 ih
  | mapping _ ih => exact within_mapping.2 ih
  | entity hkind _ _ ih =>
    rw [Kind.inScene, Bool.and_eq_true, Bool.and_eq_true] at hkind
    exact within_entity.2 ⟨hkind.1.1, ih⟩
  | _ => rfl

/-- What an intact value holds is intact. -/
theorem read_held {s : Step} (h : v.Intact) (hs : s.isHeld = true) (hw : v.read s = .ok w) :
    w.Intact := by
  rcases Value.read_held hs hw with ⟨kind, slots, n, rfl, rfl, hget⟩ | ⟨es, k, rfl, rfl, hget⟩ |
    ⟨xs, i, rfl, rfl, hget⟩
  · cases h with
    | entity _ _ h => exact h _ (Table.mem_of_get? hget)
  · cases h with
    | mapping h => exact h _ (Table.mem_of_get? hget)
  · cases h with
    | list h => exact h _ (List.mem_of_getElem? hget)

theorem get (h : v.Intact) (hx : v.get name = .ok x) : x.Intact := by
  obtain ⟨kind, slots, rfl, hget⟩ := get_ok.1 hx
  exact h.read_held (s := .slot (.field name)) rfl (read_slot.2 hget)

theorem ownedAt (h : v.Intact) (place : List String) : (v.ownedAt place).Intact := by
  unfold Value.ownedAt
  split
  · exact .builtin _
  · exact h

/-- The tables under built-in names are intact, as all else there. -/
theorem member {member : Member} (hmember : kind.member? name = some member)
    (h : (Value.entity kind slots).Intact) : (member.value kind slots name).Intact := by
  cases h with
  | entity _ _ h =>
    cases member with
    | operation shared => exact .builtin _
    | given settable =>
      rw [Member.value]
      cases hslot : Table.get? .given slots with
      | none => exact .builtin _
      | some x => exact h _ (Table.mem_of_get? hslot)
    | extras =>
      refine .mapping fun e he => ?_
      exact h _ (mem_extras.1 he)
    | own =>
      refine .mapping fun e he => ?_
      obtain ⟨s, hs⟩ := mem_own he
      exact h _ hs
    | table entries =>
      refine .mapping fun e he => ?_
      rcases Kind.table_of_member hmember with rfl | rfl | rfl
      · exact intact_of_isDocument _ (Kind.isDocument_of_settings he)
      · obtain ⟨f, -, rfl⟩ := List.mem_map.1 he
        exact .builtin _
      · cases he

/-- What an entity computes under a name of its own is a text, if it can stand under a role. -/
theorem computed (h : (Value.entity kind slots).Intact)
    (hname : (computedNames kind).contains name = true) :
    ∃ s, (Value.entity kind slots).computed name = .ok (.text s) := by
  cases h with
  | entity hkind hfields _ =>
    cases kind with
    | relationship =>
      obtain rfl : name = "key" := by simpa [computedNames] using hname
      obtain ⟨a, ha⟩ := get_of_holdsFields hfields "from_" rfl
      obtain ⟨b, hb⟩ := get_of_holdsFields hfields "to" rfl
      refine ⟨a.shownText ++ "->" ++ b.shownText, ?_⟩
      rw [Value.computed, compute, if_pos rfl, tieText, ha, ok_bind, hb]
      rfl
    | secret => cases hkind
    | thread => cases hkind
    | _ => simp [computedNames] at hname

/-- What a look-up finds can be read. -/
theorem find_read (v : Value) (l : Locate.Lookup) (s : Step) (h : v.Intact)
    (hfind : Locate.find path v l = .ok s) : ∃ w, v.read s = .ok w ∧ w.Intact := by
  cases hs : s.isHeld with
  | true =>
    obtain ⟨w, hw⟩ := Locate.find_read h.holdsFields hs hfind
    exact ⟨w, hw, h.read_held hs hw⟩
  | false =>
    obtain ⟨kind, slots, name, rfl, ⟨rfl, hname⟩ | ⟨member, rfl, hmember⟩⟩ :=
      Locate.find_unheld hs hfind
    · obtain ⟨text, htext⟩ := h.computed hname
      exact ⟨_, htext, .text text⟩
    · exact ⟨member.value kind slots name, by simp [read, hmember], h.member hmember⟩

end Intact

end Value

/-! ### What was read is intact -/

namespace Schema

theorem intact_closed :
    ClosedUnderReading fun shape v => shape.within Kind.inScene = true → v.Intact where
  document h _ := Value.intact_of_isDocument _ h
  list h hshape := .list fun x hx => h x hx (by rwa [Shape.within] at hshape)
  mapping _ h hshape := .mapping fun e he => h e he (by rwa [Shape.within] at hshape)
  optional h hshape := h (by rwa [Shape.within] at hshape)
  entity {kind value extra} hkind h hfields hshape := by
    rw [Kind.shape, Shape.within, Bool.and_eq_true] at hshape
    refine .entity hshape.1 (fun f hf => ?_) <| forall_declaredSlots.2
      ⟨fun f hf => ?_, fun e he => ?_⟩
    · exact Table.has_iff.2 ⟨value f, get?_declaredSlots (inOrder_kind hkind) hf _⟩
    · exact hfields f hf (Shape.within_of_mem hshape.2 hf)
    · exact Value.intact_of_isDocument _ (h.documents e he)

theorem intact_of_held {kind : Kind} {v : Value} (hkind : kind.inStory = true)
    (hscene : kind.shape.within Kind.inScene = true) (h : Held kind.shape v) : v.Intact :=
  intact_closed.of_kind hkind h hscene

end Schema

/-! ### Following a path -/

namespace Locate

variable {path : String} {v : Value}

theorem Leads.follow_intact {ls : List Lookup} {steps : List Step} (h : Leads path v ls steps)
    (hv : v.Intact) : ∃ w, v.follow steps = .ok w ∧ w.Intact :=
  h.follow_of (fun v l s hv _ => Value.Intact.find_read v l s hv) hv fun _ _ => trivial

theorem answered_stepsOf_intact {segment : Segment} (h : v.Intact) :
    (stepsOf path v segment).Answered := by
  refine .bind (answered_child path v segment.name) fun first hfirst => ?_
  cases haccessor : segment.accessor with
  | none => simp
  | some accessor =>
    obtain ⟨w, hw, -⟩ := h.find_read v (.name segment.name) first hfirst
    simp only [hw, ok_bind]
    exact .bind (answered_find path w (.inside segment.name accessor)) fun _ _ => failsOnly_ok _

theorem answered_stepsFrom_intact : ∀ {segments : List Segment} {v : Value}, v.Intact →
    (stepsFrom path v segments).Answered
  | [], _, _ => by simp [stepsFrom]
  | [segment], v, h => answered_stepsOf_intact h
  | segment :: next :: rest, v, h => by
    refine .bind (answered_stepsOf_intact h) fun steps hsteps => ?_
    obtain ⟨w, hw, hintact⟩ := (stepsOf_ok.1 hsteps).follow_intact h
    rw [hw, ok_bind]
    exact .bind (answered_stepsFrom_intact hintact) fun _ _ => failsOnly_ok _

/-- A path through an intact value leads to an intact value, or it is refused. -/
theorem answered_locate {segments : List Segment} (h : v.Intact) :
    (locate path v segments).Answered ∧ ∀ steps, locate path v segments = .ok steps →
      ∃ w, v.follow steps = .ok w ∧ w.Intact := by
  refine ⟨?_, fun steps hsteps => (locate_ok.1 hsteps).2.follow_intact h⟩
  unfold locate
  split
  · simp
  · exact answered_stepsFrom_intact h

end Locate

end StoryWorld
