import StoryWorld.Proofs.Rereads

/-!
Entities that are read again from what is written of them.

An entity is read again just if what it holds in each of its slots is, with one level less to be
written in. Two kinds have to be in order as a whole: no part of a story may be a mapping, which
could be taken for a wrapped part, and the cash ledger of assets has to be sound. The second is so
again after reading, since every entry says the same.
-/

namespace StoryWorld

namespace Schema

open Value

variable {shape : Shape} {v w : Value} {depth : Nat}

theorem accepted_of_validateFields {fields : Fields} {es : List (String × Value)}
    {slots : List (Slot × Value)} (h : validateFields fields es = .accepted slots) :
    ∀ f ∈ fields, ∀ name v, given? f.1.accepted es = some (name, v) →
      ∃ w, (validate f.2 (f.1.rule.prepare v)).andThen f.1.rule.check = .accepted w := by
  induction fields generalizing slots with
  | nil => simp
  | cons f rest ih =>
    unfold validateFields at h
    obtain ⟨w, vs, hw, hvs, -⟩ := Verdict.both_accepted.1 h
    refine List.forall_mem_cons.2 ⟨fun name v hgiven => ?_, ih hvs⟩
    simp only [hgiven] at hw
    exact ⟨w, Verdict.under_accepted.1 hw⟩

/-- The slots of an entity once it is read again. -/
def rereadSlots (depth : Nat) (kind : Kind) (slots : List (Slot × Value)) : List (Slot × Value) :=
  declaredSlots kind.fields (fun f => again depth f.2 (heldIn slots f)) ++
    extraSlots (Table.sorted ((extras slots).map fun e => (e.1, e.2.readBack)))

theorem readBack_declaredEntries (fields : Fields) (u : Field × Shape → Value)
    (extra : List (String × Value)) :
    (Value.mapping (declaredEntries fields u ++ extra)).readBack =
      .mapping (Table.sorted (declaredEntries fields (fun f => (u f).readBack) ++
        extra.map fun e => (e.1, e.2.readBack))) := by
  rw [readBack_mapping, List.map_append, declaredEntries, List.map_map]
  rfl

/-- What stands in the place of a part of a story, and is no mapping, is not written as a mapping
with one key. -/
theorem readBack_ne_single {room : Nat} (hs : Stands shape v) (hv : ∀ es, v ≠ .mapping es)
    (hshape : ∀ kind fields, shape.core = .record kind fields → 2 ≤ fields.length)
    (h : storedIn room shape v = .ok w) (k : String) (x : Value) :
    w.readBack ≠ .mapping [(k, x)] := by
  induction hs with
  | document hd =>
    intro heq
    have hform := (form_of_stored _ h).symm.trans ((form_readBack w).symm.trans (congrArg form heq))
    rename_i v
    cases v with
    | mapping es => exact hv es rfl
    | entity => cases hd
    | _ => cases hform
  | list _ =>
    obtain ⟨-, rfl⟩ := storedIn_list_ok.1 h
    simp
  | mapping => exact absurd rfl (hv _)
  | optional hs ih =>
    rename_i v
    by_cases hnull : v = .null
    · subst hnull
      cases h
      nofun
    · rw [storedIn_optional hnull] at h
      exact ih hv hshape h
  | entity hkind hslots hdeclared hothers =>
    obtain ⟨-, -, rfl⟩ := (storedIn_standing ⟨hkind, hslots, hdeclared, hothers⟩).1 h
    rw [readBack_declaredEntries]
    intro heq
    have hsize := congrArg List.length (Value.mapping.inj heq)
    have hfields := hshape _ _ rfl
    rw [(Table.sorted_perm _).length_eq, declaredEntries, List.length_append, List.length_map,
      List.length_singleton] at hsize
    omega

section Entity

variable {kind : Kind} {slots : List (Slot × Value)} (h : IsStanding kind slots)
include h

/-- A declared field of a standing entity is read again if what is written for it is. -/
theorem rereadsField_iff_of_room {f : Field × Shape} (hf : f ∈ kind.fields) (room : Nat)
    (hroom : depth + 1 < room) : rereadsField depth f (heldIn slots f) = true ↔
      (∃ w, storedIn room f.2 (heldIn slots f) = .ok w) ∧
        Json.writable depth (kept room f.2 (heldIn slots f)) = true ∧
          ∃ u, (validate f.2 (f.1.rule.prepare (kept room f.2 (heldIn slots f)).readBack)).andThen
            f.1.rule.check = .accepted u := by
  have hkeeps := (storableFields_kind h.inStory f hf).1.keeps
  have halike := storesAlike_of_stands (h.stands_heldIn hf)
  rw [rereadsField_iff, Rule.prepare_eq hkeeps]
  constructor
  · rintro ⟨w, hw, u, hu⟩
    obtain ⟨hok, hwritable, hread⟩ := (reread?_iff_of_room room halike hroom).1 hw
    exact ⟨hok, hwritable, u, Verdict.andThen_accepted.2 ⟨w, hread, hu⟩⟩
  · rintro ⟨hok, hwritable, u, hread⟩
    obtain ⟨w, hw, hcheck⟩ := Verdict.andThen_accepted.1 hread
    exact ⟨w, (reread?_iff_of_room room halike hroom).2 ⟨hok, hwritable, hw⟩, u, hcheck⟩

theorem accepted_again {f : Field × Shape} (hf : f ∈ kind.fields) {room : Nat}
    (hroom : depth + 1 < room) (hreads : rereadsField depth f (heldIn slots f) = true) :
    (validate f.2 (f.1.rule.prepare (kept room f.2 (heldIn slots f)).readBack)).andThen
      f.1.rule.check = .accepted (again depth f.2 (heldIn slots f)) := by
  have hkeeps := (storableFields_kind h.inStory f hf).1.keeps
  obtain ⟨w, hw, u, hu⟩ := rereadsField_iff.1 hreads
  obtain ⟨-, -, hread⟩ :=
    (reread?_iff_of_room room (storesAlike_of_stands (h.stands_heldIn hf)) hroom).1 hw
  obtain rfl := Rule.eq_of_check hkeeps hu
  rw [Rule.prepare_eq hkeeps, again, hw, hread]
  exact hu

/-- No part of what is written of an entity is unwrapped when it is read, if it holds no mapping in
the place of a part. -/
theorem prepare_readBack {room : Nat}
    (hmapping : kind = .worldState → ∀ f ∈ kind.fields, ∀ es, heldIn slots f ≠ .mapping es)
    (hok : ∀ f ∈ kind.fields, ∃ w, storedIn room f.2 (heldIn slots f) = .ok w) :
    prepare kind (Table.sorted (declaredEntries kind.fields
        (fun f => (kept room f.2 (heldIn slots f)).readBack) ++
          (extras slots).map fun e => (e.1, e.2.readBack))) =
      Table.sorted (declaredEntries kind.fields
        (fun f => (kept room f.2 (heldIn slots f)).readBack) ++
          (extras slots).map fun e => (e.1, e.2.readBack)) := by
  by_cases hkind : kind = .worldState
  · subst hkind
    refine prepare_declaredEntries (fun f hf => ?_) fun f hf _ => ?_
    · rw [Table.keys_mapValues]
      exact h.fresh_extras hf
    · have hshape : ∀ f ∈ Fields.worldState, ∀ kind fields, f.2.core = .record kind fields →
          2 ≤ fields.length := by
        simp only [Fields.worldState, List.forall_mem_cons]
        refine ⟨?_, ?_, ?_, ?_, ?_, ?_, ?_, ?_, by simp⟩
        -- Lists are no records; the others have two fields at least.
        all_goals
          rintro kind fields hcore
          cases hcore
        all_goals decide
      exact readBack_ne_single (h.stands_heldIn hf) (hmapping rfl f hf) (hshape f hf)
        (eq_kept (hok f hf))
  · exact prepare_of_ne hkind _

/-- An entity is read again just if its declared fields and its extra ones are, and it passes its
check. -/
theorem reread?_entity
    (hmapping : kind = .worldState → ∀ f ∈ kind.fields, ∀ es, heldIn slots f ≠ .mapping es) :
    reread? depth kind.shape (.entity kind slots) = some w ↔ ∃ d, depth = d + 1 ∧
      (∀ f ∈ kind.fields, rereadsField d f (heldIn slots f) = true) ∧
        (∀ e ∈ extras slots, Json.writable d e.2 = true) ∧
          checkWhole kind (rereadSlots d kind slots) = .accepted w := by
  have horder := inOrder_kind h.inStory
  have hkeys : Table.keys ((extras slots).map fun e => (e.1, e.2.readBack)) =
      Table.keys (extras slots) := Table.keys_mapValues Value.readBack (extras slots)
  have hunique : (Table.keys ((extras slots).map fun e => (e.1, e.2.readBack))).Nodup :=
    hkeys ▸ h.nodup_extras
  have hfresh : ∀ f ∈ kind.fields,
      f.1.external ∉ Table.keys ((extras slots).map fun e => (e.1, e.2.readBack)) :=
    fun f hf => hkeys ▸ h.fresh_extras hf
  rw [reread?_iff_of_room (depth + 2) (storesAlike_entity h fun f hf =>
    storesAlike_of_stands (h.stands_heldIn hf)) (Nat.lt_succ_self _)]
  -- With one level less inside, there is still room for one level more than can be written.
  have hroom : ∀ d, d + 1 < levelsUnder (d + 3) kind := fun d => by
    have hle := le_levelsUnder (d + 3) kind
    omega
  have hread : ∀ d, (∀ f ∈ kind.fields, rereadsField d f (heldIn slots f) = true) →
      validate kind.shape (Value.mapping (declaredEntries kind.fields
        (fun f => kept (levelsUnder (d + 3) kind) f.2 (heldIn slots f)) ++ extras slots)).readBack =
          checkWhole kind (rereadSlots d kind slots) := by
    intro d hall
    have hparts := fun f hf => (rereadsField_iff_of_room h hf _ (hroom d)).1 (hall f hf)
    rw [readBack_declaredEntries, Kind.shape]
    exact validate_declaredEntries horder (unknown_of_inStory h.inStory) hunique hfresh
      (fun f hf => accepted_again h hf (hroom d) (hall f hf))
      (prepare_readBack h hmapping fun f hf => (hparts f hf).1)
  constructor
  · rintro ⟨⟨saved, hsaved⟩, hwritable, hw⟩
    obtain ⟨hok, -, rfl⟩ := (storedIn_standing h).1 hsaved
    rw [kept_eq hsaved] at hwritable hw
    obtain ⟨d, rfl, hentries⟩ := Json.writable_mapping.1 hwritable
    rw [forall_declaredEntries (p := fun x => Json.writable d x = true)] at hentries
    have hall : ∀ f ∈ kind.fields, rereadsField d f (heldIn slots f) = true := by
      intro f hf
      rw [readBack_declaredEntries] at hw
      obtain ⟨_, fs, _, heq, hfs, -⟩ := record_accepted hw
      obtain rfl := Value.mapping.inj heq
      rw [prepare_readBack h hmapping hok] at hfs
      exact (rereadsField_iff_of_room h hf _ (hroom d)).2 ⟨hok f hf, hentries.1 f hf,
        accepted_of_validateFields hfs f hf _ _
          (given?_declaredEntries horder hunique hfresh _ hf)⟩
    exact ⟨d, rfl, hall, hentries.2, (hread d hall).symm.trans hw⟩
  · rintro ⟨d, rfl, hall, hextra, hw⟩
    have hparts := fun f hf => (rereadsField_iff_of_room h hf _ (hroom d)).1 (hall f hf)
    have hsaved := (storedIn_standing h (w := _)).2 ⟨fun f hf => (hparts f hf).1,
      fun e he => (Json.levels_le_of_writable (hextra e he)).trans (hroom d).le, rfl⟩
    rw [kept_eq hsaved]
    refine ⟨⟨_, hsaved⟩, Json.writable_mapping.2 ⟨d, rfl, ?_⟩, (hread d hall).trans hw⟩
    exact forall_declaredEntries (p := fun x => Json.writable d x = true).2
      ⟨fun f hf => (hparts f hf).2.1, hextra⟩

end Entity

/-! ### The ledger -/

theorem saved_of_reread? (h : reread? depth shape v = some w) : ∃ saved,
    storedIn (depth + 2) shape v = .ok saved ∧ validate shape saved.readBack = .accepted w := by
  unfold reread? at h
  split at h
  · next saved hsaved =>
    split at h
    · exact ⟨saved, hsaved, Verdict.result?_eq_some.1 h⟩
    · cases h
  · cases h

theorem again_text {s : String} (h : rereads depth .text (.text s) = true) :
    again depth .text (.text s) = .text s := by
  obtain ⟨saved, hsaved, hread⟩ := saved_of_reread? (reread?_again h)
  obtain ⟨-, rfl⟩ := (storedFreely_ok rfl).1 hsaved
  exact (Verdict.accepted.inj hread).symm

/-- A number that is read again is one that can be written. -/
theorem again_number {n : Number} (h : rereads depth .number (.number n) = true) :
    again depth .number (.number n) = .number n := by
  obtain ⟨saved, hsaved, hread⟩ := saved_of_reread? (reread?_again h)
  have hsaved : storedFreely (depth + 2) (.number n) = .ok saved := hsaved
  obtain ⟨-, rfl⟩ := (storedFreely_ok rfl).1 hsaved
  cases n with
  | int n => exact (Verdict.accepted.inj hread).symm
  | float x =>
    rw [readBack, asWritten] at hread
    split at hread
    · exact (Verdict.accepted.inj hread).symm
    · cases hread

/-- An entry of the ledger that is read again says the same. -/
theorem holding?_again {g : Holding} (hs : Stands Kind.ledgerEntry.shape v)
    (hg : v.holding? = some g) (h : rereads depth Kind.ledgerEntry.shape v = true) :
    (again depth Kind.ledgerEntry.shape v).holding? = some g := by
  obtain ⟨slots, rfl, hholder, hdenarii⟩ := holding?_eq.1 hg
  obtain ⟨-, hstanding⟩ := stands_entity.1 hs
  obtain ⟨d, rfl, hfields, -, hwhole⟩ :=
    (reread?_entity hstanding (by simp)).1 (reread?_again h)
  rw [eq_of_checkWhole hwhole]
  have hpart : ∀ f ∈ Kind.ledgerEntry.fields, ∀ x, Table.get? (.field f.1.name) slots = some x →
      rereads d f.2 x = true ∧
        Table.get? (.field f.1.name) (rereadSlots d .ledgerEntry slots) = some (again d f.2 x) := by
    intro f hf x hx
    rw [← heldIn_eq hx]
    exact ⟨rereads_of_field (hfields f hf), get?_declaredSlots (inOrder_kind rfl) hf _⟩
  obtain ⟨hreads, hget⟩ := hpart (Shape.required "holder" .text)
    (by simp [Kind.fields, Fields.ledgerEntry]) _ hholder
  obtain ⟨hreads', hget'⟩ := hpart
    (Shape.ruled .balance (Shape.withDefault "denarii" .number (.int 0)))
    (by simp [Kind.fields, Fields.ledgerEntry]) _ hdenarii
  exact holding?_eq.2 ⟨_, rfl, hget.trans (congrArg some (again_text hreads)),
    hget'.trans (congrArg some (again_number hreads'))⟩

/-- Assets with a sound ledger pass their check when they are read again. -/
theorem checkWhole_reread {slots : List (Slot × Value)} (h : IsStanding .assets slots)
    (hassets : (Value.entity .assets slots).IsAssets)
    (hflaw : Ledger.flaw? (.entity .assets slots) = .ok none)
    (hfields : ∀ f ∈ Kind.assets.fields, rereadsField depth f (heldIn slots f) = true) :
    checkWhole .assets (rereadSlots depth .assets slots) =
      .accepted (.entity .assets (rereadSlots depth .assets slots)) := by
  obtain ⟨_, _, heq, hledger, entries, rfl, hentries⟩ := hassets
  cases heq
  have hf : Shape.many "cash_ledger" Kind.ledgerEntry.shape ∈ Kind.assets.fields := by
    simp [Kind.fields, Fields.assets, Kind.shape]
  have hheld : heldIn slots (Shape.many "cash_ledger" Kind.ledgerEntry.shape) =
      .list entries := heldIn_eq hledger
  have hstands : ∀ e ∈ entries, Stands Kind.ledgerEntry.shape e := by
    rcases stands_list.1 (hheld ▸ h.stands_heldIn hf) with hd | ⟨_, ⟨⟩, hs⟩
    · exact fun e he => .document (isDocument_list.1 hd e he)
    · exact hs
  have hreads := reread?_again (rereads_of_field (hfields _ hf))
  rw [hheld] at hreads
  obtain ⟨d, rfl, hall, hagain⟩ :=
    (reread?_list fun e he => storesAlike_of_stands (hstands e he)).1 hreads
  refine checkWhole_of_holdings (r := again d Kind.ledgerEntry.shape) hledger ?_ (fun e he => ?_)
    hflaw
  · rw [← hagain, ← hheld]
    exact get?_declaredSlots (inOrder_kind rfl) hf _
  · obtain ⟨g, hg, -⟩ := hentries e he
    exact ⟨g, hg, holding?_again (hstands e he) hg (hall e he)⟩

end Schema

/-! ### Entities by their slots -/

/-- Whether a value that is an entity is in order as a whole: a story has no mapping in the place of
a part, and assets have a sound ledger. -/
structure Value.Complete (v : Value) : Prop where
  unwrapped : ∀ slots, v = .entity .worldState slots → ∀ f ∈ Fields.worldState, ∀ es,
    heldIn slots f ≠ .mapping es
  sound : ∀ slots, v = .entity .assets slots → v.IsAssets ∧ Ledger.flaw? v = .ok none

namespace Schema

open Value

variable {kind : Kind} {slots : List (Slot × Value)} {depth : Nat}

/-- What declared and extra fields hold is what slots hold. -/
theorem rereadsSlot_iff (h : IsStanding kind slots) :
    (∀ slot x, Table.get? slot slots = some x → rereadsSlot depth kind slot x = true) ↔
      (∀ f ∈ kind.fields, rereadsField depth f (heldIn slots f) = true) ∧
        ∀ e ∈ extras slots, Json.writable depth e.2 = true := by
  have hfield : ∀ f ∈ kind.fields, ∀ x, rereadsSlot depth kind (.field f.1.name) x =
      rereadsField depth f x := by
    intro f hf x
    rw [rereadsSlot, Kind.field?, (inOrder_kind h.inStory).find? hf]
    rfl
  constructor
  · refine fun hslots => ⟨fun f hf => ?_, fun e he => hslots _ _ (h.get?_extra he)⟩
    rw [← hfield f hf]
    exact hslots _ _ (h.get?_heldIn hf)
  · rintro ⟨hfields, hextra⟩ slot x hx
    cases slot with
    | field name =>
      obtain ⟨f, hf, rfl⟩ :=
        (h.fits.declared name).1 (Table.mem_keys_of_get? hx)
      obtain rfl := Option.some.inj ((h.get?_heldIn hf).symm.trans hx)
      rw [hfield f hf]
      exact hfields f hf
    | extra name => exact hextra (name, x) (mem_extras.2 (Table.mem_of_get? hx))
    | attached name => rfl
    | given => rfl

/-- An entity in order is read again just if what it holds in each of its slots is. -/
theorem rereads_entity (h : IsStanding kind slots) (hc : (Value.entity kind slots).Complete) :
    rereads depth kind.shape (.entity kind slots) = true ↔ ∃ d, depth = d + 1 ∧
      ∀ slot x, Table.get? slot slots = some x → rereadsSlot d kind slot x = true := by
  have hmapping : kind = .worldState → ∀ f ∈ kind.fields, ∀ es, heldIn slots f ≠ .mapping es := by
    rintro rfl
    exact hc.unwrapped slots rfl
  have hwhole : ∀ d, (∀ f ∈ kind.fields, rereadsField d f (heldIn slots f) = true) →
      checkWhole kind (rereadSlots d kind slots) =
        .accepted (.entity kind (rereadSlots d kind slots)) := by
    intro d hfields
    by_cases hkind : kind = .assets
    · subst hkind
      obtain ⟨hassets, hflaw⟩ := hc.sound slots rfl
      exact checkWhole_reread h hassets hflaw hfields
    · exact checkWhole_of_ne hkind _
  simp only [rereads_iff, reread?_entity h hmapping, rereadsSlot_iff h]
  constructor
  · rintro ⟨w, d, hdepth, hfields, hextra, -⟩
    exact ⟨d, hdepth, hfields, hextra⟩
  · rintro ⟨d, hdepth, hfields, hextra⟩
    exact ⟨_, d, hdepth, hfields, hextra, hwhole d hfields⟩

end Schema

end StoryWorld
