import StoryWorld.Proofs.AsWritten
import StoryWorld.Proofs.Standing

/-!
What standing values are stored as.

Whatever stands in a field of a story is stored as a document. How much room there is does not
matter to it, as long as the room is enough for what can be written and one level more, which a rule
of the constraints takes.
-/

namespace StoryWorld

/-! ### Entities by their slots -/

namespace Value

/-- What an entity holds in a declared field. -/
def heldIn (slots : List (Slot × Value)) (f : Field × Shape) : Value :=
  (Table.get? (.field f.1.name) slots).getD .null

theorem heldIn_eq {slots : List (Slot × Value)} {f : Field × Shape} {x : Value}
    (h : Table.get? (.field f.1.name) slots = some x) : heldIn slots f = x := by
  rw [heldIn, h]
  rfl

theorem sublist_keys_extras : ∀ slots : List (Slot × Value),
    ((Table.keys (extras slots)).map Slot.extra).Sublist (Table.keys slots)
  | [] => .slnil
  | (.extra _, _) :: rest => (sublist_keys_extras rest).cons_cons _
  | (.field _, _) :: rest => (sublist_keys_extras rest).cons _
  | (.attached _, _) :: rest => (sublist_keys_extras rest).cons _
  | (.given, _) :: rest => (sublist_keys_extras rest).cons _

namespace IsStanding

variable {kind : Kind} {slots : List (Slot × Value)} (h : IsStanding kind slots)
  {f : Field × Shape}
include h

theorem get?_heldIn (hf : f ∈ kind.fields) :
    Table.get? (.field f.1.name) slots = some (heldIn slots f) := by
  have hmem := (h.fits.declared f.1.name).2 ⟨f, hf, rfl⟩
  obtain ⟨x, hx⟩ := Table.mem_keys_iff.1 hmem
  rw [heldIn_eq hx, hx]

theorem stands_heldIn (hf : f ∈ kind.fields) : Stands f.2 (heldIn slots f) :=
  h.declared f hf _ (h.get?_heldIn hf)

theorem nodup_extras : (Table.keys (extras slots)).Nodup :=
  (h.fits.unique.sublist (sublist_keys_extras slots)).of_map _

theorem get?_extra {e : String × Value} (he : e ∈ extras slots) :
    Table.get? (.extra e.1) slots = some e.2 :=
  (Table.get?_eq_some_iff h.fits.unique).2 (mem_extras.1 he)

theorem document_extra {e : String × Value} (he : e ∈ extras slots) : e.2.isDocument = true :=
  h.others _ _ (h.get?_extra he) (by simp)

theorem fresh_extras (hf : f ∈ kind.fields) : f.1.external ∉ Table.keys (extras slots) := by
  intro hmem
  obtain ⟨e, he, hname⟩ := List.mem_map.1 hmem
  refine h.fits.fresh f hf (Table.mem_keys_of_get? (v := e.2) ?_)
  rw [← hname]
  exact h.get?_extra he

end IsStanding

end Value

/-! ### Room -/

namespace Schema

open Value

/-- Whether what a value in a field of a shape is stored as is a document, the same wherever there
is room for as much as can be written of it. -/
def StoresAlike (shape : Shape) (v : Value) : Prop :=
  ∀ room saved, storedIn room shape v = .ok saved → saved.isDocument = true ∧
    ∀ depth room', Json.writable depth saved = true → depth + 1 < room' →
      storedIn room' shape v = .ok saved

variable {shape item inner : Shape} {v w : Value} {room : Nat}

theorem kept_eq (h : storedIn room shape v = .ok w) : kept room shape v = w := by
  rw [kept, h]
  rfl

theorem StoresAlike.kept {room' depth : Nat} (h : StoresAlike shape v)
    (hok : ∃ w, storedIn room shape v = .ok w)
    (hw : Json.writable depth (kept room shape v) = true) (hroom : depth + 1 < room') :
    storedIn room' shape v = .ok (kept room shape v) :=
  (h room _ (eq_kept hok)).2 depth room' hw hroom

/-- A document that is stored as it is, if it has not too many levels. -/
theorem storesAlike_free (hd : v.isDocument = true) (under : Nat → Nat)
    (hunder : ∀ room, room ≤ under room + 1)
    (h : ∀ room, storedIn room shape v = storedFreely (under room) v) : StoresAlike shape v := by
  intro room saved hsaved
  rw [h, storedFreely_ok hd] at hsaved
  obtain ⟨-, rfl⟩ := hsaved
  refine ⟨hd, fun depth room' hw hroom => ?_⟩
  have hlevels := Json.levels_le_of_writable hw
  have hle := hunder room'
  rw [h, storedFreely_ok hd]
  exact ⟨by omega, rfl⟩

theorem storesAlike_plain (hd : v.isDocument = true)
    (h : ∀ room, storedIn room shape v = storedFreely room v) : StoresAlike shape v :=
  storesAlike_free hd id (fun room => Nat.le_succ room) h

/-- A value that is stored as something else, whatever the room. -/
theorem storesAlike_fixed {o : Outcome Value} (h : ∀ room, storedIn room shape v = o)
    (hd : ∀ saved, o = .ok saved → saved.isDocument = true) : StoresAlike shape v :=
  fun room saved hsaved => ⟨hd saved ((h room).symm.trans hsaved), fun _ room' _ _ =>
    (h room').trans ((h room).symm.trans hsaved)⟩

theorem storesAlike_list {xs : List Value} (h : ∀ x ∈ xs, StoresAlike item x) :
    StoresAlike (.list item) (.list xs) := by
  intro room saved hsaved
  obtain ⟨hok, rfl⟩ := storedIn_list_ok.1 hsaved
  refine ⟨?_, fun depth room' hw hroom => ?_⟩
  · rw [isDocument_list, List.forall_mem_map]
    exact fun x hx => (h x hx _ _ (eq_kept (hok x hx))).1
  · obtain ⟨d, rfl, hitems⟩ := Json.writable_list.1 hw
    rw [List.forall_mem_map] at hitems
    have hsame := fun x hx => (h x hx).kept (hok x hx) (hitems x hx) (Nat.lt_of_succ_lt hroom)
    refine storedIn_list_ok.2 ⟨fun x hx => ⟨_, hsame x hx⟩, ?_⟩
    exact congrArg Value.list (List.map_congr_left fun x hx => (kept_eq (hsame x hx)).symm)

theorem storesAlike_mapping {es : List (String × Value)} (hkeys : (Table.keys es).Nodup)
    (h : ∀ e ∈ es, StoresAlike item e.2) : StoresAlike (.mapping item) (.mapping es) := by
  intro room saved hsaved
  obtain ⟨hok, rfl⟩ := storedIn_mapping_ok.1 hsaved
  refine ⟨?_, fun depth room' hw hroom => ?_⟩
  · rw [isDocument_mapping, Table.keys_mapValues, List.forall_mem_map]
    exact ⟨hkeys, fun e he => (h e he _ _ (eq_kept (hok e he))).1⟩
  · obtain ⟨d, rfl, hentries⟩ := Json.writable_mapping.1 hw
    rw [List.forall_mem_map] at hentries
    have hsame := fun e he => (h e he).kept (hok e he) (hentries e he) (Nat.lt_of_succ_lt hroom)
    refine storedIn_mapping_ok.2 ⟨fun e he => ⟨_, hsame e he⟩, ?_⟩
    refine congrArg Value.mapping (List.map_congr_left fun e he => ?_)
    rw [kept_eq (hsame e he)]

theorem storesAlike_optional (h : StoresAlike inner v) : StoresAlike (.optional inner) v := by
  by_cases hv : v = .null
  · subst hv
    exact storesAlike_fixed (fun _ => rfl) (by rintro _ ⟨⟩; rfl)
  · unfold StoresAlike
    simp only [storedIn_optional hv]
    exact h

/-- What a standing entity is stored as. -/
theorem storedIn_standing {kind : Kind} {slots : List (Slot × Value)} (h : IsStanding kind slots) :
    storedIn room kind.shape (.entity kind slots) = .ok w ↔
      (∀ f ∈ kind.fields, ∃ w, storedIn (levelsUnder room kind) f.2 (heldIn slots f) = .ok w) ∧
        (∀ e ∈ extras slots, e.2.levels ≤ levelsUnder room kind) ∧
        w = .mapping (declaredEntries kind.fields
          (fun f => kept (levelsUnder room kind) f.2 (heldIn slots f)) ++ extras slots) :=
  storedIn_entity_ok (fun _ hf => h.get?_heldIn hf) fun _ he => h.document_extra he

/-- An entity is stored the same wherever there is room inside for as much as can be written. -/
theorem storedIn_standing_room {kind : Kind} {slots : List (Slot × Value)} {room' depth : Nat}
    (h : IsStanding kind slots) (hfields : ∀ f ∈ kind.fields, StoresAlike f.2 (heldIn slots f))
    (hsaved : storedIn room kind.shape (.entity kind slots) = .ok w)
    (hw : Json.writable depth w = true) (hroom : depth < levelsUnder room' kind) :
    storedIn room' kind.shape (.entity kind slots) = .ok w := by
  obtain ⟨hok, -, rfl⟩ := (storedIn_standing h).1 hsaved
  obtain ⟨d, rfl, hentries⟩ := Json.writable_mapping.1 hw
  rw [forall_declaredEntries (p := fun x => Json.writable d x = true)] at hentries
  have hsame := fun f hf => (hfields f hf).kept (hok f hf) (hentries.1 f hf) hroom
  refine (storedIn_standing h).2 ⟨fun f hf => ⟨_, hsame f hf⟩, fun e he => ?_, ?_⟩
  · exact (Json.levels_le_of_writable (hentries.2 e he)).trans hroom.le
  · congr 2
    refine List.map_congr_left fun f hf => ?_
    exact congrArg (Prod.mk f.1.external) (kept_eq (hsame f hf)).symm

theorem storesAlike_entity {kind : Kind} {slots : List (Slot × Value)} (h : IsStanding kind slots)
    (hfields : ∀ f ∈ kind.fields, StoresAlike f.2 (heldIn slots f)) :
    StoresAlike kind.shape (.entity kind slots) := by
  intro room saved hsaved
  refine ⟨?_, fun depth room' hw hroom => ?_⟩
  · obtain ⟨hok, -, rfl⟩ := (storedIn_standing h).1 hsaved
    exact isDocument_declaredEntries (inOrder_kind h.inStory) h.nodup_extras
      (fun f hf => h.fresh_extras hf) (fun f hf => (hfields f hf _ _ (eq_kept (hok f hf))).1)
      fun e he => h.document_extra he
  · have hle := le_levelsUnder room' kind
    exact storedIn_standing_room h hfields hsaved hw (by omega)

theorem storesAlike_of_isDocument : ∀ (shape : Shape) {v : Value}, v.isDocument = true →
    StoresAlike shape v
  | .any, _, hd | .text, _, hd | .truth, _, hd | .choice _, _, hd =>
    storesAlike_plain hd fun _ => rfl
  | .whole, v, hd | .number, v, hd => by
    cases v with
    | bool b => exact storesAlike_fixed (fun _ => rfl) (by rintro _ ⟨⟩; rfl)
    | _ => exact storesAlike_plain hd fun _ => rfl
  | .real, v, hd => by
    match v, hd with
    | .bool b, _ => exact storesAlike_fixed (fun _ => rfl) (by rintro _ ⟨⟩; rfl)
    | .number (.int n), _ =>
      refine storesAlike_fixed (fun _ => rfl) fun saved hsaved => ?_
      obtain ⟨x, -, rfl⟩ := Outcome.map_ok.1 hsaved
      rfl
    | .number (.float x), hd | .null, hd | .text s, hd | .list xs, hd | .mapping es, hd =>
      exact storesAlike_plain hd fun _ => rfl
  | .list item, v, hd => by
    cases v with
    | list xs =>
      exact storesAlike_list fun x hx => storesAlike_of_isDocument item (isDocument_list.1 hd x hx)
    | _ => exact storesAlike_plain hd fun _ => rfl
  | .mapping item, v, hd => by
    cases v with
    | mapping es =>
      rw [isDocument_mapping] at hd
      exact storesAlike_mapping hd.1 fun e he => storesAlike_of_isDocument item (hd.2 e he)
    | _ => exact storesAlike_plain hd fun _ => rfl
  | .optional inner, v, hd => storesAlike_optional (storesAlike_of_isDocument inner hd)
  | .record kind fields, v, hd => by
    cases v with
    | entity => cases hd
    | _ => exact storesAlike_free hd (levelsUnder · kind) (le_levelsUnder · kind) fun _ => rfl

/-- What stands in a field of a story is stored alike. -/
theorem storesAlike_of_stands (h : Stands shape v) : StoresAlike shape v := by
  induction h with
  | document hd => exact storesAlike_of_isDocument _ hd
  | list _ ih => exact storesAlike_list ih
  | mapping hkeys _ ih => exact storesAlike_mapping hkeys ih
  | optional _ ih => exact storesAlike_optional ih
  | entity hkind hslots hdeclared hothers ih =>
    have hstanding : IsStanding _ _ := ⟨hkind, hslots, hdeclared, hothers⟩
    exact storesAlike_entity hstanding fun f hf => ih f hf _ (hstanding.get?_heldIn hf)

end Schema

end StoryWorld
