import StoryWorld.Proofs.Ranks
import StoryWorld.Proofs.Recovered

/-!
What equality of values means.

Two numbers are equal just if both stand for numbers of the same rank, so equality of numbers is
symmetric, and reflexive wherever it can be. A mapping is equal to another just if they have the
same keys and equal values under each of them. From that, equality of values is reflexive where no
number is undefined, and symmetric where no key stands twice. The strict comparison says the same
of two values of which both or neither are truth values, unless the left one is an entity that the
right one, a mapping, is read as.
-/

namespace StoryWorld

namespace Number

open Float.Model Float.Model.UnpackedFloat

variable {a b : Number} {x y : Float} {s : Sign}

/-- No number is equal to one that stands for none. -/
theorem equal_undefined (h : x.isNaN = true) :
    (float x).equal b = false ∧ b.equal (float x) = false := by
  have hx : x.toModel.unpack = .notANumber := by
    have hnan : x.toModel.unpack.isNaN = true := h
    cases hu : x.toModel.unpack <;> simp_all [UnpackedFloat.isNaN]
  cases b with
  | float y =>
    rw [equal, equal, compare?, compare?, Binary.compareFloat?_unpack,
      Binary.compareFloat?_unpack, Binary.compare_swap x.toModel.unpack, hx]
    exact ⟨rfl, rfl⟩
  | int n =>
    have hparts : Binary.parts? x = none := by
      rw [Binary.parts?_eq, hx]
      rfl
    constructor <;> rw [equal, compare?, Binary.compareInt?, hparts] <;>
      simp only [h, if_true] <;> rfl

/-- Two numbers are equal just if both stand for numbers, of the same rank. -/
theorem equal_iff_rank : a.equal b = true ↔ a.IsDefined ∧ b.IsDefined ∧ a.rank = b.rank := by
  by_cases ha : a.IsDefined
  · by_cases hb : b.IsDefined
    · rw [equal_iff_of_defined ha hb]
      exact ⟨fun h => ⟨ha, hb, h⟩, fun h => h.2.2⟩
    · cases b with
      | int n => exact absurd trivial hb
      | float y => simp [(equal_undefined (b := a) (Bool.not_eq_false _ ▸ hb)).2, hb]
  · cases a with
    | int n => exact absurd trivial ha
    | float x => simp [(equal_undefined (b := b) (Bool.not_eq_false _ ▸ ha)).1, ha]

theorem equal_comm (a b : Number) : a.equal b = b.equal a := by
  rw [Bool.eq_iff_iff, equal_iff_rank, equal_iff_rank]
  exact ⟨fun ⟨ha, hb, h⟩ => ⟨hb, ha, h.symm⟩, fun ⟨hb, ha, h⟩ => ⟨ha, hb, h.symm⟩⟩

theorem equal_self_iff : a.equal a = true ↔ a.IsDefined := by
  rw [equal_iff_rank]
  exact ⟨fun h => h.1, fun h => ⟨h, h, rfl⟩⟩

end Number

/-! ### Tables that match -/

namespace Table

variable {κ α β : Type} [DecidableEq κ]

/-- Two tables have the same keys, and under each of them values that stand in a relation. -/
structure Matches (r : α → β → Prop) (es : List (κ × α)) (fs : List (κ × β)) : Prop where
  length : es.length = fs.length
  under : ∀ e ∈ es, ∃ y, get? e.1 fs = some y ∧ r e.2 y

namespace Matches

variable {r : α → β → Prop} {es : List (κ × α)} {fs : List (κ × β)}

theorem keys_perm (h : Matches r es fs) (hkeys : (keys es).Nodup) : (keys es).Perm (keys fs) := by
  have hsub : keys es ⊆ keys fs := by
    intro k hk
    obtain ⟨e, he, rfl⟩ := List.mem_map.1 hk
    obtain ⟨y, hy, -⟩ := h.under e he
    exact mem_keys_of_get? hy
  refine (List.subperm_of_subset hkeys hsub).perm_of_length_le ?_
  rw [keys, keys, List.length_map, List.length_map, h.length]

/-- Tables with each key once match the other way round too. -/
theorem symm (h : Matches r es fs) (hes : (keys es).Nodup) (hfs : (keys fs).Nodup) :
    Matches (fun y x => r x y) fs es where
  length := h.length.symm
  under f hf := by
    have hmem : f.1 ∈ keys es := (h.keys_perm hes).mem_iff.2 (List.mem_map_of_mem hf)
    obtain ⟨e, he, hkey⟩ := List.mem_map.1 hmem
    obtain ⟨y, hy, hr⟩ := h.under e he
    obtain rfl : f.2 = y := by
      rw [hkey, (get?_eq_some_iff hfs).2 hf] at hy
      exact Option.some.inj hy
    exact ⟨e.2, hkey ▸ (get?_eq_some_iff hes).2 he, hr⟩

theorem imp {r' : α → β → Prop} (h : Matches r es fs)
    (himp : ∀ e ∈ es, ∀ f ∈ fs, r e.2 f.2 → r' e.2 f.2) : Matches r' es fs where
  length := h.length
  under e he := by
    obtain ⟨y, hy, hr⟩ := h.under e he
    exact ⟨y, hy, himp e he _ (mem_of_get? hy) hr⟩

/-- A table with each key once matches itself just if every value stands in relation to itself. -/
theorem self_iff {r : α → α → Prop} {es : List (κ × α)} (hkeys : (keys es).Nodup) :
    Matches r es es ↔ ∀ e ∈ es, r e.2 e.2 := by
  have hget : ∀ e ∈ es, get? e.1 es = some e.2 := fun e he => (get?_eq_some_iff hkeys).2 he
  refine ⟨fun h e he => ?_, fun h => ⟨rfl, fun e he => ⟨e.2, hget e he, h e he⟩⟩⟩
  obtain ⟨y, hy, hr⟩ := h.under e he
  rw [hget e he] at hy
  exact Option.some.inj hy ▸ hr

end Matches

end Table

/-! ### Values part by part -/

namespace Value

variable {xs ys : List Value} {es fs : List (String × Value)} {k l : Kind}
  {ss ts : List (Slot × Value)} {v w : Value}

/-- Lists are equal just if they have one length and equal items at each position. -/
theorem equal_list_iff : (list xs).equal (list ys) = true ↔ xs.length = ys.length ∧
    ∀ (i : Nat) (x y : Value), xs[i]? = some x → ys[i]? = some y → x.equal y = true := by
  rw [equal]
  induction xs generalizing ys with
  | nil => cases ys <;> simp [equalItems]
  | cons x xs ih =>
    cases ys with
    | nil => simp [equalItems]
    | cons y ys =>
      rw [equalItems, Bool.and_eq_true, ih, List.length_cons, List.length_cons, Nat.succ_inj]
      constructor
      · rintro ⟨hxy, hlength, h⟩
        refine ⟨hlength, fun i a b ha hb => ?_⟩
        cases i with
        | zero => exact Option.some.inj ha ▸ Option.some.inj hb ▸ hxy
        | succ i => exact h i a b ha hb
      · rintro ⟨hlength, h⟩
        exact ⟨h 0 x y rfl rfl, hlength, fun i a b => h (i + 1) a b⟩

theorem equalEntries_iff : equalEntries es fs = true ↔
    ∀ e ∈ es, ∃ y, Table.get? e.1 fs = some y ∧ e.2.equal y = true := by
  refine ⟨fun h => ?_, equalEntries_of_get?⟩
  induction es with
  | nil => simp
  | cons e es ih =>
    rw [equalEntries, Bool.and_eq_true] at h
    rw [List.forall_mem_cons]
    refine ⟨?_, ih h.2⟩
    split at h
    · next y hy => exact ⟨y, hy, h.1⟩
    · cases h.1

/-- Mappings are equal just if they have the same keys with equal values. -/
theorem equal_mapping_iff : (mapping es).equal (mapping fs) = true ↔
    Table.Matches (fun x y => x.equal y = true) es fs := by
  rw [equal, Bool.and_eq_true, beq_iff_eq, equalEntries_iff]
  exact ⟨fun h => ⟨h.1, h.2⟩, fun h => ⟨h.length, h.under⟩⟩

/-- The slots of an entity that count when it is compared. -/
def counted (slots : List (Slot × Value)) : List (Slot × Value) := slots.filter (Slot.counts ·.1)

theorem get?_counted {slot : Slot} (h : slot.counts = true) :
    Table.get? slot (counted ss) = Table.get? slot ss :=
  Table.get?_filter (fun _ => h) ss

theorem equalSlots_iff : equalSlots ss ts = true ↔
    ∀ e ∈ counted ss, ∃ y, Table.get? e.1 (counted ts) = some y ∧ e.2.equal y = true := by
  induction ss with
  | nil => simp [equalSlots, counted]
  | cons s ss ih =>
    rw [equalSlots, Bool.and_eq_true, ih]
    cases hcounts : s.1.counts with
    | false => simp [counted, hcounts]
    | true =>
      have hcons : counted (s :: ss) = s :: counted ss := List.filter_cons_of_pos hcounts
      rw [hcons, List.forall_mem_cons, get?_counted hcounts]
      refine and_congr_left' ?_
      cases Table.get? s.1 ts <;> simp

/-- Entities are equal just if they are of one kind and their slots that count are equal. -/
theorem equal_entity_iff : (entity k ss).equal (entity l ts) = true ↔
    k = l ∧ Table.Matches (fun x y => x.equal y = true) (counted ss) (counted ts) := by
  rw [equal, Bool.and_eq_true, Bool.and_eq_true, beq_iff_eq, beq_iff_eq, equalSlots_iff,
    List.countP_eq_length_filter, List.countP_eq_length_filter]
  exact ⟨fun h => ⟨h.1.1, h.1.2, h.2⟩, fun h => ⟨⟨h.1, h.2.length⟩, h.2.under⟩⟩

/-! ### The strict comparison -/

variable {left right : Value}

/-- An entity is taken for a mapping: the mapping is read as an equal entity of its kind, or cannot
be read for a number that is too large to be checked. -/
def TakenFor (left right : Value) : Prop :=
  ∃ kind slots es, left = entity kind slots ∧ right = mapping es ∧
    (Schema.validate kind.shape (mapping es) = .overflow ∨
      ∃ w, Schema.validate kind.shape (mapping es) = .accepted w ∧
        (entity kind slots).equal w = true)

/-- An entity that is not taken for a mapping is not equal to it. -/
theorem strictEqual_eq_of_not_takenFor (h : ¬left.TakenFor right) :
    left.strictEqual right = .ok (left.isBool == right.isBool && left.equal right) := by
  unfold strictEqual
  cases hbool : left.isBool == right.isBool with
  | false => simp [bne, hbool]
  | true =>
    simp only [bne, hbool, Bool.not_true, Bool.false_eq_true, if_false, Bool.true_and]
    split
    · next kind slots es =>
      have hplain : (entity kind slots).equal (mapping es) = false := by simp [equal]
      rw [hplain]
      split
      · next w hw =>
        rw [Except.ok.injEq, ← Bool.not_eq_true]
        exact fun hequal => h ⟨kind, slots, es, rfl, rfl, .inr ⟨w, hw, hequal⟩⟩
      · rfl
      · next hoverflow => exact absurd ⟨kind, slots, es, rfl, rfl, .inl hoverflow⟩ h
    · rfl

end Value

end StoryWorld
