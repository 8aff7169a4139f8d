import StoryWorld.Proofs.Documented
import StoryWorld.Proofs.Reloaded

/-!
Values as a story has them once it was read.

Every entity holds its declared fields in their order and after them extra fields, none of which
goes by the name that a declared field has in documents; nothing is attached to it. A change along
parts of the document keeps that. The document of such a value is one to one with it: each step
along its parts has its step in the document, and a change of the value is the same change of the
document.
-/

namespace StoryWorld

/-- The keys of the slots of an entity that was read: its declared fields, then extra fields that
differ and have no name that a declared field has in documents. -/
def OrderlyKeys (kind : Kind) (keys : List Slot) : Prop :=
  ∃ extra : List String,
    keys = kind.fields.map (fun f => Slot.field f.1.name) ++ extra.map Slot.extra ∧ extra.Nodup ∧
      ∀ f ∈ kind.fields, f.1.external ∉ extra

namespace Value

/-- A value as a story has it once it was read. -/
inductive Orderly : Value → Prop
  | null : Orderly null
  | bool (b : Bool) : Orderly (bool b)
  | number (n : Number) : Orderly (number n)
  | text (s : String) : Orderly (text s)
  | list {xs : List Value} (h : ∀ x ∈ xs, Orderly x) : Orderly (list xs)
  | mapping {es : List (String × Value)} (h : ∀ e ∈ es, Orderly e.2) : Orderly (mapping es)
  | entity {kind : Kind} {slots : List (Slot × Value)} (hkeys : OrderlyKeys kind (Table.keys slots))
    (h : ∀ e ∈ slots, Orderly e.2) : Orderly (entity kind slots)

namespace Orderly

variable {v w : Value} {s : Step} {steps : List Step}

/-- What a part of the document leads to is in order too. -/
theorem read (h : v.Orderly) (hs : s.isDocumented = true) (hw : v.read s = .ok w) : w.Orderly := by
  rcases read_documented hs hw with ⟨kind, slots, n, rfl, rfl, hget⟩ | ⟨es, k, rfl, rfl, hget⟩ |
    ⟨xs, i, rfl, rfl, hget⟩
  · cases h with
    | entity _ h => exact h _ (Table.mem_of_get? hget)
  · cases h with
    | mapping h => exact h _ (Table.mem_of_get? hget)
  · cases h with
    | list h => exact h _ (List.mem_of_getElem? hget)

theorem follow (h : v.Orderly) (hd : ∀ s ∈ steps, s.isDocumented = true)
    (hw : v.follow steps = .ok w) : w.Orderly := by
  induction steps generalizing v with
  | nil =>
    obtain rfl := by simpa [Value.follow] using hw
    exact h
  | cons s rest ih =>
    rw [List.forall_mem_cons] at hd
    obtain ⟨x, hx, hrest⟩ := follow_cons.1 hw
    exact ih (h.read hd.1 hx) hd.2 hrest

/-- A value in order that takes the place of a part leaves the whole in order. -/
theorem put {old : Value} (h : v.Orderly) (hs : s.isDocumented = true) (hold : v.read s = .ok old)
    (hw : w.Orderly) : (v.put s w).Orderly := by
  rcases read_documented hs hold with ⟨kind, slots, n, rfl, rfl, hget⟩ | ⟨es, k, rfl, rfl, hget⟩ |
    ⟨xs, i, rfl, rfl, hget⟩
  · cases h with
    | entity hkeys h =>
      refine .entity ?_ fun e he => ?_
      · rwa [Table.keys_put (Table.has_iff.2 ⟨old, hget⟩)]
      · rcases Table.mem_put he with rfl | he
        · exact hw
        · exact h e he
  · cases h with
    | mapping h =>
      refine .mapping fun e he => ?_
      rcases Table.mem_put he with rfl | he
      · exact hw
      · exact h e he
  · cases h with
    | list h =>
      refine .list fun x hx => ?_
      rcases List.mem_or_eq_of_mem_set hx with hx | rfl
      · exact h x hx
      · exact hw

theorem replace {old : Value} (h : v.Orderly) (hd : ∀ s ∈ steps, s.isDocumented = true)
    (hold : v.follow steps = .ok old) (hw : w.Orderly) : (v.replace steps w).Orderly := by
  induction steps generalizing v with
  | nil => exact hw
  | cons s rest ih =>
    rw [List.forall_mem_cons] at hd
    obtain ⟨x, hx, hrest⟩ := follow_cons.1 hold
    rw [replace_cons hd.1 hx]
    exact h.put hd.1 hx (ih (h.read hd.1 hx) hd.2 hrest)

end Orderly

/-- A document is in order. -/
theorem orderly_of_isDocument (v : Value) (h : v.isDocument = true) : v.Orderly := by
  induction v, h using document_induct with
  | null => exact .null
  | bool b => exact .bool b
  | number n => exact .number n
  | text s => exact .text s
  | list xs _ ih => exact .list ih
  | mapping es _ _ ih => exact .mapping ih

end Value

/-! ### What was read is in order -/

namespace Schema

/-- An entity that was read is in order if its declared fields are. -/
theorem orderly_of_heldEntity {kind : Kind} {value : Field × Shape → Value}
    {extra : List (String × Value)} (h : HeldEntity kind.fields value extra)
    (hfields : ∀ f ∈ kind.fields, (value f).Orderly) :
    (Value.entity kind (declaredSlots kind.fields value ++ extraSlots extra)).Orderly :=
  .entity ⟨Table.keys extra, keys_declaredSlots, h.unique, h.fresh⟩ <| forall_declaredSlots.2
    ⟨hfields, fun e he => Value.orderly_of_isDocument _ (h.documents e he)⟩

theorem orderly_closed : ClosedUnderReading fun _ v => v.Orderly where
  document h := Value.orderly_of_isDocument _ h
  list := .list
  mapping _ h := .mapping h
  optional h := h
  entity _ h hfields := orderly_of_heldEntity h hfields

end Schema

/-- A story that was read is in order. -/
theorem Story.orderly_of_read {document : Value} {story : Story} (hd : document.isDocument = true)
    (h : read document = .ok story) : story.toEntity.Orderly :=
  Schema.orderly_closed.of_kind rfl (held_of_read hd h)

end StoryWorld
