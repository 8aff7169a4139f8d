import StoryWorld.Proofs.Along
import StoryWorld.Proofs.Tidy

/-!
The way on which a path leads to a list.

An entity has two tables under built-in names, one of its extra fields and one of its declared
fields. A path through a table leads to what stands in a slot, and a change there is a change of the
slot. In a story that was read each path to a list leads through slots, keys and items alone, once
the tables are passed over: all else that entities compute or have built in has no list inside. So
what holds of places in the document holds of every place of a list.
-/

namespace StoryWorld

namespace Slot

/-- The name that a slot goes by. -/
def name : Slot → String
  | field n | extra n | attached n => n
  | given => Kind.givenName

/-- The built-in name of the table in which an entity has a slot. -/
def table (slot : Slot) : String := if slot.isExtra then "model_extra" else Kind.ownName

/-- The table in which an entity has a slot. -/
def tableIn (slot : Slot) (slots : List (Slot × Value)) : List (String × Value) :=
  if slot.isExtra then Value.extras slots else Value.own slots

/-- Whether another slot stands in the table of a slot. -/
def sharesTable (slot other : Slot) : Bool :=
  if slot.isExtra then other.isExtra else other.isOwn

end Slot

/-- Steps, and the direct way to where they lead: past the tables of entities. -/
inductive Step.Direct : List Step → List Step → Prop
  | nil : Direct [] []
  | step {s : Step} {steps way : List Step} (hs : s.isDocumented = true) (h : Direct steps way) :
    Direct (s :: steps) (s :: way)
  | table {n : Slot} {steps way : List Step} (hn : (Step.slot n).isDocumented = true)
    (h : Direct steps way) : Direct (.builtin n.table :: .key n.name :: steps) (.slot n :: way)

theorem Step.Direct.documented {steps way : List Step} (h : Step.Direct steps way) :
    ∀ s ∈ way, s.isDocumented = true := by
  induction h with
  | nil => simp
  | step hs _ ih => exact List.forall_mem_cons.2 ⟨hs, ih⟩
  | table hn _ ih => exact List.forall_mem_cons.2 ⟨hn, ih⟩

namespace Value

variable {v w x old new : Value} {kind : Kind} {slots : List (Slot × Value)} {n : Slot}
  {steps way : List Step}

/-! ### The tables of an entity -/

theorem member?_table (kind : Kind) (n : Slot) :
    kind.member? n.table = some (if n.isExtra then .extras else .own) := by
  have hnone : Table.get? n.table kind.ownOperations = none := by
    cases n <;> cases kind <;> rfl
  rw [Kind.member?, hnone]
  cases n <;> rfl

theorem read_table (kind : Kind) (slots : List (Slot × Value)) (n : Slot) :
    (entity kind slots).read (.builtin n.table) = .ok (mapping (n.tableIn slots)) := by
  rw [read, member?_table]
  cases n <;> rfl

theorem tableIn_cons (m n : Slot) (v : Value) (rest : List (Slot × Value)) :
    n.tableIn ((m, v) :: rest) =
      if n.sharesTable m then (m.name, v) :: n.tableIn rest else n.tableIn rest := by
  cases m <;> cases n <;> rfl

theorem sharesTable_self (hn : (Step.slot n).isDocumented = true) : n.sharesTable n = true := by
  cases n <;> first | rfl | cases hn

/-- Slots of one table differ by their names, if nothing was attached. -/
theorem eq_of_name {m : Slot} (hn : (Step.slot n).isDocumented = true)
    (hm : m.isDocumented = true) (htable : n.sharesTable m = true) (hname : m.name = n.name) :
    m = n := by
  cases n with
  | field name =>
    cases m with
    | field other => exact congrArg _ hname
    | extra other => cases htable
    | attached other => cases hm
    | given => cases hm
  | extra name =>
    cases m with
    | extra other => exact congrArg _ hname
    | _ => cases htable
  | attached name => cases hn
  | given => cases hn

/-- Nothing was put beside the document of an entity. -/
def Unattached (slots : List (Slot × Value)) : Prop :=
  ∀ m ∈ Table.keys slots, m.isDocumented = true

theorem unattached_cons {m : Slot} {rest : List (Slot × Value)} (h : Unattached ((m, v) :: rest)) :
    m.isDocumented = true ∧ Unattached rest :=
  ⟨h m List.mem_cons_self, fun n hmem => h n (List.mem_cons_of_mem _ hmem)⟩

theorem refill_tableIn (n : Slot) (slots : List (Slot × Value)) :
    refill n.sharesTable slots (n.tableIn slots) = slots := by
  cases n with
  | extra name => exact refill_extras slots
  | _ => exact refill_own slots

section Tables

variable (hn : (Step.slot n).isDocumented = true)
include hn

/-- A slot goes by its name in its table. -/
theorem get?_tableIn : ∀ {slots : List (Slot × Value)}, Unattached slots →
    Table.get? n.name (n.tableIn slots) = Table.get? n slots
  | [], _ => by cases n <;> rfl
  | (m, v) :: rest, h => by
    obtain ⟨hm, hrest⟩ := unattached_cons h
    rw [tableIn_cons, Table.get?_cons, ← get?_tableIn hrest]
    by_cases heq : m = n
    · subst heq
      simp [sharesTable_self hn, Table.get?_cons]
    · rw [if_neg heq]
      split
      · rename_i htable
        rw [Table.get?_cons, if_neg fun hname => heq (eq_of_name hn hm htable hname)]
      · rfl

/-- The table of a slot after another value came into the slot. -/
theorem tableIn_put (v : Value) : ∀ {slots : List (Slot × Value)}, Unattached slots →
    Table.has n slots = true →
      n.tableIn (Table.put n v slots) = Table.put n.name v (n.tableIn slots)
  | [], _, hhas => by cases hhas
  | (m, w) :: rest, h, hhas => by
    obtain ⟨hm, hrest⟩ := unattached_cons h
    rw [tableIn_cons, Table.put_cons]
    by_cases heq : m = n
    · subst heq
      simp [sharesTable_self hn, tableIn_cons, Table.put_cons]
    · have hhas' : Table.has n rest = true := by simpa [Table.has, Table.get?_cons, heq] using hhas
      rw [if_neg heq, tableIn_cons, tableIn_put v hrest hhas']
      split
      · rename_i htable
        rw [Table.put_cons, if_neg fun hname => heq (eq_of_name hn hm htable hname)]
      · rfl

/-- Another value under a name of a table comes into the slot of that name. -/
theorem refill_table (v : Value) : ∀ {slots : List (Slot × Value)}, Unattached slots →
    Table.has n slots = true → refill n.sharesTable slots
      (Table.put n.name v (n.tableIn slots)) = Table.put n v slots
  | [], _, hhas => by cases hhas
  | (m, w) :: rest, h, hhas => by
    obtain ⟨hm, hrest⟩ := unattached_cons h
    rw [tableIn_cons, Table.put_cons]
    by_cases heq : m = n
    · subst heq
      simp [sharesTable_self hn, Table.put_cons, refill, refill_tableIn]
    · have hhas' : Table.has n rest = true := by simpa [Table.has, Table.get?_cons, heq] using hhas
      have ih := refill_table v hrest hhas'
      rw [if_neg heq]
      by_cases htable : n.sharesTable m = true
      · rw [if_pos htable, Table.put_cons,
          if_neg fun hname => heq (eq_of_name hn hm htable hname), refill, if_pos htable, ih]
      · rw [if_neg htable, refill_cons_skip (Bool.eq_false_iff.2 htable), ih]

/-- A change in a table is a change of a slot. -/
theorem put_table (h : Unattached slots) (hhas : Table.has n slots = true) (v : Value) :
    (entity kind slots).put (.builtin n.table) (mapping (Table.put n.name v (n.tableIn slots))) =
      (entity kind slots).put (.slot n) v := by
  simp only [put, putBuiltin, member?_table, ← refill_table hn v h hhas]
  cases n <;> rfl

end Tables

theorem Orderly.unattached (h : (Value.entity kind slots).Orderly) : Unattached slots := by
  cases h with
  | entity hkeys _ => exact hkeys.isDocumented

/-- An entity in order still has the set of the fields that it was given. -/
theorem Orderly.value_given (h : (Value.entity kind slots).Orderly) (settable : Bool)
    (name : String) :
    (Member.given settable).value kind slots name = .builtin ⟨name, "set", .entity []⟩ := by
  have hgiven : Table.get? .given slots = none := h.get?_undocumented rfl
  rw [Member.value, hgiven]
  rfl

/-! ### The direct way -/

/-- What stands in a table under a name stands in the slot of that name. -/
theorem read_table_key (h : v.Orderly) (hn : (Step.slot n).isDocumented = true) :
    (∃ t, v.read (.builtin n.table) = .ok t ∧ t.read (.key n.name) = .ok x) ↔
      v.read (.slot n) = .ok x := by
  cases v with
  | entity kind slots =>
    rw [read_slot, ← get?_tableIn hn h.unattached, ← read_key]
    simp only [read_table, Except.ok.injEq, exists_eq_left']
  | _ => simp [read]

/-- Steps lead where the direct way leads. -/
theorem follow_direct (hd : Step.Direct steps way) (h : v.Orderly) :
    v.follow steps = .ok w ↔ v.follow way = .ok w := by
  induction hd generalizing v with
  | nil => rfl
  | step hs hd ih =>
    rw [follow_cons, follow_cons]
    exact exists_congr fun x => and_congr_right fun hx => ih (h.read hs hx)
  | @table n steps way hn hd ih =>
    rw [follow_cons, follow_cons]
    constructor
    · rintro ⟨t, ht, hrest⟩
      obtain ⟨x, hx, hrest⟩ := follow_cons.1 hrest
      have hslot := (read_table_key h hn).1 ⟨t, ht, hx⟩
      exact ⟨x, hslot, (ih (h.read hn hslot)).1 hrest⟩
    · rintro ⟨x, hx, hrest⟩
      obtain ⟨t, ht, hkey⟩ := (read_table_key h hn).2 hx
      exact ⟨t, ht, follow_cons.2 ⟨x, hkey, (ih (h.read hn hx)).2 hrest⟩⟩

/-- A change where steps lead is a change where the direct way leads. -/
theorem replace_direct (hd : Step.Direct steps way) (h : v.Orderly) (hold : v.follow way = .ok old) :
    v.replace steps new = v.replace way new := by
  induction hd generalizing v with
  | nil => rfl
  | step hs hd ih =>
    obtain ⟨x, hx, hrest⟩ := follow_cons.1 hold
    rw [replace_cons hs hx, replace_cons hs hx, ih (h.read hs hx) hrest]
  | @table n steps way hn hd ih =>
    obtain ⟨x, hx, hrest⟩ := follow_cons.1 hold
    obtain ⟨kind, slots, rfl, hget⟩ := entity_of_read hx
    have hkey : (mapping (n.tableIn slots)).read (.key n.name) = .ok x :=
      read_key.2 ((get?_tableIn hn h.unattached).trans hget)
    have hhas : Table.has n slots = true := Table.has_iff.2 ⟨x, hget⟩
    rw [replace, read_table, replace_cons hn hx, ← put_table hn h.unattached hhas,
      ← ih (h.read hn hx) hrest]
    simp only [replace_cons (s := .key n.name) rfl hkey]
    exact putInside_eq_put (by simp)

end Value

namespace Locate

open Value

variable {path : String} {v old new : Value} {l : Lookup} {ls : List Lookup}
  {steps way : List Step}

/-- Look-ups lead along the same steps after a change at their end, if neither what was there nor
what is there now is a text and both are found alike. -/
theorem Leads.replace_direct (hd : Step.Direct steps way) (h : Leads path v ls steps)
    (hv : v.Orderly) (hold : v.follow way = .ok old) (hsame : old.SameId new)
    (hne : old.category ≠ .string) (hne' : new.category ≠ .string) :
    Leads path (v.replace way new) ls steps := by
  induction hd generalizing v ls with
  | nil => cases h
  | @step s steps way hs hd ih =>
    obtain ⟨x, hx, hrest⟩ := follow_cons.1 hold
    have hx' := sameId_of_category hd.documented hrest hsame hne hne'
    rw [replace_cons hs hx]
    cases h with
    | last h =>
      cases hd
      exact .last (find_put hs hx (fun _ => hx') h)
    | next h hw hleads =>
      obtain rfl := Except.ok.inj (hx.symm.trans hw)
      exact .next (find_put hs hx (fun _ => hx') h) (read_put_self hs hx)
        (ih hleads (hv.read hs hx) hrest)
  | @table n steps way hn hd ih =>
    obtain ⟨x, hx, hrest⟩ := follow_cons.1 hold
    have hx' := sameId_of_category hd.documented hrest hsame hne hne'
    obtain ⟨kind, slots, rfl, hget⟩ := entity_of_read hx
    have hhas : Table.has n slots = true := Table.has_iff.2 ⟨x, hget⟩
    have hkey : (mapping (n.tableIn slots)).read (.key n.name) = .ok x :=
      read_key.2 ((get?_tableIn hn hv.unattached).trans hget)
    -- The table changes under the name just as the entity does in the slot.
    have htable : ((Value.entity kind slots).put (.slot n) (x.replace way new)).read
        (.builtin n.table) = .ok ((mapping (n.tableIn slots)).put (.key n.name)
          (x.replace way new)) := by
      rw [Value.put, read_table, tableIn_put hn _ hv.unattached hhas]
      rfl
    rw [replace_cons hn hx]
    cases h with
    | next h hw hleads =>
      obtain rfl := Except.ok.inj ((read_table kind slots n).symm.trans hw)
      refine .next (find_put hn hx (by simp [Step.isItem]) h) htable ?_
      cases hleads with
      | last h =>
        cases hd
        exact .last (find_put rfl hkey (by simp [Step.isItem]) h)
      | next h hw hleads =>
        obtain rfl := Except.ok.inj (hkey.symm.trans hw)
        exact .next (find_put rfl hkey (by simp [Step.isItem]) h) (read_put_self rfl hkey)
          (ih hleads (hv.read hn hx) hrest)

end Locate

/-! ### What was read -/

namespace Value

variable {v w x : Value} {s : Step} {steps : List Step} {kind : Kind} {slots : List (Slot × Value)}
  {name : String}

/-- Whether there are steps into a value. -/
def hasParts : Value → Bool
  | list _ | mapping _ | entity _ _ => true
  | _ => false

/-- A value as it stands in a story that was read: a document, or what was read as a shape. -/
def Loaded (v : Value) : Prop :=
  v.isDocument = true ∨ ∃ shape, Schema.Storable shape ∧ Schema.Held shape v

theorem Loaded.orderly (h : v.Loaded) : v.Orderly := by
  obtain h | ⟨shape, hshape, h⟩ := h
  · exact orderly_of_isDocument v h
  · exact Schema.orderly_closed.of_held shape hshape v h

end Value

namespace Schema

open Value

variable {v w x : Value} {shape : Shape} {kind : Kind} {slots : List (Slot × Value)} {n : Slot}
  {name : String}

/-- The forms of what was read as a shape that a story has. -/
theorem forms_of_held : ∀ shape : Shape, Storable shape → Held shape v → v.isDocument = true ∨
    (∃ item xs, Storable item ∧ v = .list xs ∧ ∀ x ∈ xs, Held item x) ∨
    (∃ item es, Storable item ∧ v = .mapping es ∧ ∀ e ∈ es, Held item e.2) ∨
    ∃ kind : Kind, kind.inStory = true ∧ Held kind.shape v
  | .any, _, h | .text, _, h | .whole, _, h | .real, _, h | .truth, _, h | .number, _, h
  | .choice _, _, h => .inl (isDocument_of_held rfl h)
  | .list item, hs, h => by
    obtain ⟨xs, rfl, hxs⟩ := held_list h
    exact .inr (.inl ⟨item, xs, hs, rfl, hxs⟩)
  | .mapping item, hs, h => by
    obtain ⟨es, rfl, -, hes⟩ := held_mapping h
    exact .inr (.inr (.inl ⟨item, es, hs, rfl, hes⟩))
  | .optional inner, hs, h => by
    by_cases hv : v = .null
    · subst hv
      exact .inl rfl
    · exact forms_of_held inner hs (held_optional hv h)
  | .record kind fields, ⟨hkind, _, heq⟩, h => by
    subst heq
    exact .inr (.inr (.inr ⟨kind, hkind, h⟩))

/-- What a slot of an entity that was read holds. -/
theorem loaded_slot (hkind : kind.inStory = true) (h : Held kind.shape (.entity kind slots))
    (hget : Table.get? n slots = some x) : x.Loaded := by
  obtain ⟨value, extra, hheld, heq, -⟩ :=
    heldEntity_of_validate (inOrder_kind hkind) (unknown_of_inStory hkind) h
  obtain rfl := (Value.entity.inj heq).2
  have hall := forall_declaredSlots (p := Value.Loaded).2
    ⟨fun f hf => .inr ⟨f.2, (storableFields_kind hkind f hf).2, (hheld.held f hf).1⟩,
      fun e he => .inl (hheld.documents e he)⟩
  exact hall _ (Table.mem_of_get? hget)

/-- An entity that was read computes texts, numbers and truth values. -/
theorem computed_single (hkind : kind.inStory = true) (h : Held kind.shape v)
    (hname : (computedNames kind).contains name = true) (hw : v.computed name = .ok w) :
    w.hasParts = false := by
  have htyped := typed_of_kind hkind h
  cases kind with
  | relationship =>
    obtain rfl : name = "key" := by simpa [computedNames] using hname
    obtain ⟨a, ha, -⟩ := exists_get "from_" rfl htyped
    obtain ⟨b, hb, -⟩ := exists_get "to" rfl htyped
    have hcompute : compute "key" v = .ok (.text (a.shownText ++ "->" ++ b.shownText)) := by
      rw [compute, if_pos rfl, tieText, ha, Outcome.ok_bind, hb]
      rfl
    rw [computed, hcompute] at hw
    obtain rfl := Except.ok.inj hw
    rfl
  | secret =>
    obtain rfl : name = "relevance_score" := by simpa [computedNames] using hname
    have hn := Subgraph.computed_relevance htyped
    obtain rfl := Except.ok.inj (hn.symm.trans hw)
    rfl
  | thread =>
    obtain rfl : name = "is_urgent" := by simpa [computedNames] using hname
    obtain ⟨b, hb⟩ := urgent_known htyped
    obtain rfl := Except.ok.inj (hb.symm.trans hw)
    rfl
  | _ => simp [computedNames] at hname

end Schema

namespace Value.Loaded

open Value

variable {v w x : Value} {s : Step} {steps : List Step} {kind : Kind} {slots : List (Slot × Value)}

/-- What a value that was read has as a part of its document. -/
theorem read (h : v.Loaded) (hs : s.isDocumented = true) (hw : v.read s = .ok w) : w.Loaded := by
  have hheld := Step.isHeld_of_isDocumented hs
  obtain hd | ⟨shape, hshape, h⟩ := h
  · exact .inl (isDocument_read hd hheld hw)
  obtain hd | ⟨item, xs, hitem, rfl, hxs⟩ | ⟨item, es, hitem, rfl, hes⟩ | ⟨kind, hkind, h⟩ :=
    Schema.forms_of_held shape hshape h
  · exact .inl (isDocument_read hd hheld hw)
  · obtain ⟨i, rfl, hi⟩ := read_list hs hw
    exact .inr ⟨item, hitem, hxs w (List.mem_of_getElem? hi)⟩
  · obtain ⟨_, _, _, ⟨⟩, -⟩ | ⟨_, k, heq, rfl, hk⟩ | ⟨_, _, ⟨⟩, -⟩ := read_documented hs hw
    cases heq
    exact .inr ⟨item, hitem, hes _ (Table.mem_of_get? hk)⟩
  · obtain ⟨value, extra, -, rfl, -⟩ := Schema.heldEntity_of_validate
      (Schema.inOrder_kind hkind) (Schema.unknown_of_inStory hkind) h
    obtain ⟨n, rfl, hget⟩ := read_entity hs hw
    exact Schema.loaded_slot hkind h hget

theorem follow (h : v.Loaded) (hd : ∀ s ∈ steps, s.isDocumented = true)
    (hw : v.follow steps = .ok w) : w.Loaded := by
  induction steps generalizing v with
  | nil =>
    obtain rfl := by simpa [Value.follow] using hw
    exact h
  | cons s rest ih =>
    rw [List.forall_mem_cons] at hd
    obtain ⟨x, hx, hrest⟩ := follow_cons.1 hw
    exact ih (h.read hd.1 hx) hd.2 hrest

/-- An entity among what was read was read as its kind. -/
theorem entity (h : (Value.entity kind slots).Loaded) :
    kind.inStory = true ∧ Schema.Held kind.shape (.entity kind slots) := by
  obtain hd | ⟨shape, hshape, h⟩ := h
  · cases hd
  obtain hd | ⟨_, _, -, heq, -⟩ | ⟨_, _, -, heq, -⟩ | ⟨kind', hkind, h⟩ :=
    Schema.forms_of_held shape hshape h
  · cases hd
  · cases heq
  · cases heq
  obtain ⟨value, extra, -, heq, -⟩ := Schema.heldEntity_of_validate
    (Schema.inOrder_kind hkind) (Schema.unknown_of_inStory hkind) h
  obtain rfl := (Value.entity.inj heq).1
  exact ⟨hkind, h⟩

/-- Nothing is attached to what was read. -/
theorem isDocumented (h : v.Loaded) (hs : s.isHeld = true) (hw : v.read s = .ok w) :
    s.isDocumented = true := by
  cases s with
  | slot n =>
    obtain ⟨kind, slots, rfl, hget⟩ := entity_of_read hw
    exact h.orderly.unattached n (Table.mem_keys_of_get? hget)
  | computed name => cases hs
  | builtin name => cases hs
  | _ => rfl

end Value.Loaded

namespace Locate

open Value

variable {path : String} {v w : Value} {l : Lookup} {ls : List Lookup} {s : Step}
  {steps : List Step} {xs : List Value}

/-- A look-up is made in what has parts. -/
theorem hasParts_of_find (h : find path v l = .ok s) : v.hasParts = true := by
  cases l with
  | name n => cases v <;> first | rfl | cases h
  | inside name accessor =>
    cases accessor <;> cases v <;> first | rfl | cases h

/-- The first of the steps of look-ups that lead to a list, and the rest of them. -/
theorem leads_cons (h : Leads path v ls steps) (hlist : v.follow steps = .ok (.list xs)) :
    ∃ l rest s more w, ls = l :: rest ∧ steps = s :: more ∧ find path v l = .ok s ∧
      v.read s = .ok w ∧ w.hasParts = true ∧ w.follow more = .ok (.list xs) ∧
        (more = [] ∨ Leads path w rest more) := by
  cases h with
  | last h =>
    obtain ⟨w, hw, hnil⟩ := follow_cons.1 hlist
    obtain rfl : w = .list xs := by simpa [Value.follow] using hnil
    exact ⟨_, _, _, _, _, rfl, rfl, h, hw, rfl, hnil, .inl rfl⟩
  | next h hw hrest =>
    obtain ⟨x, hx, hmore⟩ := follow_cons.1 hlist
    obtain rfl := Except.ok.inj (hw.symm.trans hx)
    refine ⟨_, _, _, _, _, rfl, rfl, h, hw, ?_, hmore, .inr hrest⟩
    cases hrest with
    | last h => exact hasParts_of_find h
    | next h => exact hasParts_of_find h

/-- Only one name leads to the extra fields as a whole. -/
theorem eq_model_extra {kind : Kind} {name : String} (h : kind.member? name = some .extras) :
    name = "model_extra" := by
  unfold Kind.member? at h
  split at h
  · cases h
  · repeat (split at h; · cases h)
    split at h
    · assumption
    · split at h
      · cases h
      · split at h <;> cases h

theorem find_key {es : List (String × Value)} (h : find path (.mapping es) l = .ok s) :
    ∃ k, s = .key k := by
  have hchild : ∀ name, child path (.mapping es) name = .ok s → ∃ k, s = .key k := by
    intro name h
    rw [child] at h
    split at h
    · exact ⟨name, (Except.ok.inj h).symm⟩
    · cases h
  cases l with
  | name n => exact hchild n h
  | inside name accessor =>
    cases accessor with
    | key k => exact hchild k h
    | position i => cases h

theorem single_of_settings {kind : Kind} {e : String × Value} (h : e ∈ kind.settings) :
    e.2.hasParts = false := by
  unfold Kind.settings at h
  split at h
  all_goals
    simp at h
    rcases h with rfl | rfl | rfl <;> rfl

/-- Of what is built into an entity only its tables lead to lists, through a slot each. -/
theorem slot_of_leads {kind : Kind} {slots : List (Slot × Value)} {name : String} {member : Member}
    (hv : (Value.entity kind slots).Loaded) (hmember : kind.member? name = some member)
    (h : Leads path (member.value kind slots name) ls steps)
    (hlist : (member.value kind slots name).follow steps = .ok (.list xs)) :
    ∃ n l rest more x, (Step.slot n).isDocumented = true ∧ name = n.table ∧ ls = l :: rest ∧
      steps = .key n.name :: more ∧ (Value.entity kind slots).read (.slot n) = .ok x ∧
        x.follow more = .ok (.list xs) ∧ (more = [] ∨ Leads path x rest more) := by
  obtain ⟨l, rest, s, more, x, rfl, rfl, hfind, hx, hparts, hmore, hnext⟩ := leads_cons h hlist
  have hslot : ∃ n : Slot, (Step.slot n).isDocumented = true ∧ name = n.table ∧
      s = .key n.name ∧ member.value kind slots name = .mapping (n.tableIn slots) := by
    cases member with
    | operation shared => cases hasParts_of_find hfind
    | given settable =>
      rw [hv.orderly.value_given] at hfind
      cases hasParts_of_find hfind
    | table entries =>
      obtain ⟨k, rfl⟩ := find_key hfind
      have hmem := Table.mem_of_get? (read_key.1 hx)
      have hsingle : x.hasParts = false := by
        obtain rfl | rfl | rfl := Kind.table_of_member hmember
        · exact single_of_settings hmem
        · obtain ⟨f, -, heq⟩ := List.mem_map.1 hmem
          cases heq
          rfl
        · cases hmem
      cases hsingle.symm.trans hparts
    | extras =>
      obtain ⟨k, rfl⟩ := find_key hfind
      exact ⟨.extra k, rfl, eq_model_extra hmember, rfl, rfl⟩
    | own =>
      obtain ⟨k, rfl⟩ := find_key hfind
      exact ⟨.field k, rfl, eq_ownName hmember, rfl, rfl⟩
  obtain ⟨n, hn, hname, rfl, hvalue⟩ := hslot
  rw [hvalue] at hx
  have hread := (read_table_key hv.orderly hn).1 ⟨_, read_table kind slots n, hx⟩
  exact ⟨n, l, rest, more, x, hn, hname, rfl, rfl, hread, hmore, hnext⟩

/-- In what was read, look-ups that lead to a list do so on a direct way. -/
theorem Leads.direct {ls : List Lookup} {v : Value} {steps : List Step} (hv : v.Loaded)
    (h : Leads path v ls steps) (hlist : v.follow steps = .ok (.list xs)) :
    ∃ way, Step.Direct steps way := by
  -- A table takes up two look-ups, so the induction is on their number.
  induction hlength : ls.length using Nat.strong_induction_on generalizing v ls steps with
  | _ k ih =>
    have hafter : ∀ {rest : List Lookup} {more : List Step} {x : Value}, rest.length < k →
        x.Loaded → x.follow more = .ok (.list xs) → (more = [] ∨ Leads path x rest more) →
          ∃ way, Step.Direct more way := by
      rintro rest more x hlt hx hmore (rfl | hleads)
      · exact ⟨[], .nil⟩
      · exact ih _ hlt hx hleads hmore rfl
    obtain ⟨l, rest, s, more, w, rfl, rfl, hfind, hw, hparts, hmore, hnext⟩ := leads_cons h hlist
    cases hs : s.isHeld with
    | true =>
      have hdoc := hv.isDocumented hs hw
      obtain ⟨way, hway⟩ := hafter (by simp [← hlength]) (hv.read hdoc hw) hmore hnext
      exact ⟨_, .step hdoc hway⟩
    | false =>
      obtain ⟨kind, slots, name, rfl, ⟨rfl, hname⟩ | ⟨member, rfl, hmember⟩⟩ :=
        find_unheld hs hfind
      · obtain ⟨hkind, hheld⟩ := hv.entity
        cases (Schema.computed_single hkind hheld hname hw).symm.trans hparts
      · have hvalue : member.value kind slots name = w := by simpa [Value.read, hmember] using hw
        subst hvalue
        have hleads : Leads path (member.value kind slots name) rest more := by
          refine hnext.resolve_left ?_
          rintro rfl
          have heq : member.value kind slots name = .list xs := by simpa [Value.follow] using hmore
          cases member with
          | given settable =>
            rw [hv.orderly.value_given] at heq
            cases heq
          | _ => cases heq
        obtain ⟨n, l', rest', more', x, hn, rfl, rfl, rfl, hx, hmore', hnext'⟩ :=
          slot_of_leads hv hmember hleads hmore
        obtain ⟨way, hway⟩ := hafter (by simp [← hlength]) (hv.read hn hx) hmore' hnext'
        exact ⟨_, .table hn hway⟩

end Locate

/-! ### Places on the direct way -/

theorem Story.loaded_root {document : Value} {story : Story} (hd : document.isDocument = true)
    (h : read document = .ok story) (r : Root) : (story.root r).Loaded :=
  Schema.loaded_slot rfl (held_of_read hd h) (Value.read_slot.1 (story.read_root r))

namespace Place

variable {story : Story} {place direct : Place} {path : String} {v w old new : Value}

/-- A place of the document to which the direct way to a place leads. -/
structure Direct (place direct : Place) : Prop where
  root : direct.root = place.root
  steps : Step.Direct place.steps direct.steps

/-- In a story that was read each place of a list has one. -/
theorem exists_direct {document : Value} {xs : List Value} (hd : document.isDocument = true)
    (hread : Story.read document = .ok story) (h : resolve story path = .ok place)
    (hlist : place.read story = .ok (.list xs)) : ∃ direct, place.Direct direct := by
  obtain ⟨-, segments, -, -, hlocate⟩ := resolve_ok.1 h
  rw [read_eq] at hlist
  obtain ⟨way, hway⟩ := (Locate.locate_ok.1 hlocate).2.direct
    (Story.loaded_root hd hread place.root) hlist
  have hne : way ≠ [] := by
    rintro rfl
    cases hsteps : place.steps with
    | nil => simp [steps] at hsteps
    | cons s rest =>
      rw [hsteps] at hway
      cases hway
  obtain ⟨direct, hdirect⟩ : ∃ direct, ofSteps place.root way = some direct := by
    rw [ofSteps, List.getLast?_eq_some_getLast hne]
    exact ⟨_, rfl⟩
  obtain ⟨hroot, hsteps⟩ := steps_ofSteps hdirect
  exact ⟨direct, hroot, hsteps ▸ hway⟩

/-- Putting back what was there restores the story. -/
theorem put_read (hold : place.read story = .ok old) : place.put story old = story := by
  refine Story.toEntity_injective ?_
  rw [toEntity_put]
  exact Value.replace_follow (follow_route.2 hold)

namespace Direct

variable (h : place.Direct direct)
include h

theorem isDocumented : direct.isDocumented = true := isDocumented_iff.2 h.steps.documented

variable (horder : story.toEntity.Orderly)
include horder

theorem read : place.read story = .ok w ↔ direct.read story = .ok w := by
  rw [read_eq, read_eq, h.root]
  exact Value.follow_direct h.steps (Story.orderly_root horder place.root)

theorem put (hold : direct.read story = .ok old) (v : Value) :
    place.put story v = direct.put story v := by
  rw [read_eq, h.root] at hold
  have hsame : (story.root place.root).replace place.steps v =
      (story.root place.root).replace direct.steps v :=
    Value.replace_direct h.steps (Story.orderly_root horder place.root) hold
  rw [Place.put, Place.put, h.root]
  exact congrArg _ hsame

/-- A path to what is no text still leads to its place after a change there, if what is there now is
found as what was. -/
theorem resolve_put (hresolve : resolve story path = .ok place)
    (hold : direct.read story = .ok old) (hsame : old.SameId new) (hne : old.category ≠ .string)
    (hne' : new.category ≠ .string) : resolve (direct.put story new) path = .ok place := by
  obtain ⟨parts, segments, hsplit, hparse, hlocate⟩ := resolve_ok.1 hresolve
  refine resolve_ok.2 ⟨parts, segments, hsplit, hparse, ?_⟩
  rw [read_eq, h.root] at hold
  obtain ⟨hsegments, hleads⟩ := Locate.locate_ok.1 hlocate
  rw [Place.put, h.root, Story.root_setRoot_self]
  exact Locate.locate_ok.2 ⟨hsegments, hleads.replace_direct h.steps
    (Story.orderly_root horder place.root) hold hsame hne hne'⟩

theorem orderly (hold : direct.read story = .ok old) : old.Orderly :=
  (Story.orderly_root horder direct.root).follow h.steps.documented (by rwa [← read_eq])

/-- What is put at the end of the direct way is read at the place. -/
theorem read_put (hold : direct.read story = .ok old) (hv : v.Orderly) :
    place.read (direct.put story v) = .ok v :=
  (h.read (orderly_put horder h.isDocumented hold hv)).2 (read_put_self h.isDocumented hold)

/-- What is put at the place then takes its place. -/
theorem put_put (hold : direct.read story = .ok old) (hv : v.Orderly) (w : Value) :
    place.put (direct.put story v) w = direct.put story w := by
  have hput := orderly_put horder h.isDocumented hold hv
  rw [h.put hput (read_put_self h.isDocumented hold)]
  refine Story.toEntity_injective ?_
  rw [toEntity_put, toEntity_put, toEntity_put]
  exact Value.replace_replace (documented_route h.isDocumented) (follow_route.2 hold)

/-- A path to a list leads to another list that is put in its place, and what is put there next
takes the place of both. -/
theorem put_list {xs ys : List Value} (hresolve : resolve story path = .ok place)
    (hold : direct.read story = .ok (.list xs)) (hys : (Value.list ys).Orderly) :
    resolve (place.put story (.list ys)) path = .ok place ∧
      place.read (place.put story (.list ys)) = .ok (.list ys) ∧
      ∀ w, place.put (place.put story (.list ys)) w = place.put story w := by
  have hsame : (Value.list xs).SameId (.list ys) := Value.sameId_of_idOf rfl
  have hlist : ∀ zs, (Value.list zs).category ≠ .string := by simp [Value.category]
  rw [h.put horder hold]
  refine ⟨h.resolve_put horder hresolve hold hsame (hlist xs) (hlist ys),
    h.read_put horder hold hys, fun w => ?_⟩
  rw [h.put_put horder hold hys, h.put horder hold]

end Direct

end Place

end StoryWorld
