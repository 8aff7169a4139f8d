import StoryWorld.Proofs.Reloaded
import StoryWorld.Proofs.Stored

/-!
Values that are read again from what is written of them.

What stands in a field of a story need not be what its shape says. It is read again if it can be
stored, if that can be written, and if what is written is read as the shape. A list is read again
just if its items are, and a mapping if its values are, with one level less to be written in.
-/

namespace StoryWorld

namespace Verdict

variable {α : Type}

/-- What a verdict accepts. -/
def result? : Verdict α → Option α
  | accepted a => some a
  | _ => none

@[simp] theorem result?_eq_some {v : Verdict α} {a : α} : v.result? = some a ↔ v = .accepted a := by
  cases v <;> simp [result?]

end Verdict

namespace Value

/-- What a value is written as: an array, an object, or a single value. -/
inductive Form where
  | single | array | object
  deriving DecidableEq

/-- The form that a value is written in. -/
def form : Value → Form
  | list _ => .array
  | mapping _ | entity _ _ => .object
  | _ => .single

theorem form_dump (v : Value) : v.dump.form = v.form := by
  cases v <;> simp [dump, form]

theorem form_readBack (v : Value) : v.readBack.form = v.form := by
  cases v with
  | list xs => simp [form]
  | mapping es => simp [form]
  | number n =>
    cases n with
    | int n => rfl
    | float x =>
      rw [readBack, asWritten]
      split <;> rfl
  | _ => rfl

end Value

namespace Schema

open Value

/-- What a value in a field of a shape is read as again, once it was stored and written with so many
levels left. -/
def reread? (depth : Nat) (shape : Shape) (v : Value) : Option Value :=
  match storedIn (depth + 2) shape v with
  | .ok saved => if Json.writable depth saved then (validate shape saved.readBack).result? else none
  | .error _ => none

/-- Whether a value in a field of a shape is read again. -/
def rereads (depth : Nat) (shape : Shape) (v : Value) : Bool := (reread? depth shape v).isSome

/-- What it is read as, nothing if it is not. -/
def again (depth : Nat) (shape : Shape) (v : Value) : Value := (reread? depth shape v).getD .null

/-- Whether a declared field of an entity is read again from what it holds. -/
def rereadsField (depth : Nat) (f : Field × Shape) (v : Value) : Bool :=
  (reread? depth f.2 v).any fun w => (f.1.rule.check w).result?.isSome

/-- Whether what a slot of an entity holds is read again. What is no part of its document is not
stored. -/
def rereadsSlot (depth : Nat) (kind : Kind) : Slot → Value → Bool
  | .field name, v => (kind.field? name).all fun f => rereadsField depth f v
  | .extra _, v => Json.writable depth v
  | .attached _, _ | .given, _ => true

variable {shape item inner : Shape} {v w : Value} {depth : Nat}

theorem rereads_iff : rereads depth shape v = true ↔ ∃ w, reread? depth shape v = some w :=
  Option.isSome_iff_exists

theorem reread?_again (h : rereads depth shape v = true) :
    reread? depth shape v = some (again depth shape v) := by
  obtain ⟨w, hw⟩ := rereads_iff.1 h
  rw [again, hw]
  rfl

theorem rereadsField_iff {f : Field × Shape} : rereadsField depth f v = true ↔
    ∃ w, reread? depth f.2 v = some w ∧ ∃ u, f.1.rule.check w = .accepted u := by
  simp [rereadsField, Option.any_eq_true, Option.isSome_iff_exists]

theorem rereads_of_field {f : Field × Shape} (h : rereadsField depth f v = true) :
    rereads depth f.2 v = true := by
  obtain ⟨w, hw, -⟩ := rereadsField_iff.1 h
  exact rereads_iff.2 ⟨w, hw⟩

/-- How much room a value was stored in makes no difference to what it is read as again. -/
theorem reread?_iff_of_room (room : Nat) (h : StoresAlike shape v) (hroom : depth + 1 < room) :
    reread? depth shape v = some w ↔ (∃ saved, storedIn room shape v = .ok saved) ∧
      Json.writable depth (kept room shape v) = true ∧
        validate shape (kept room shape v).readBack = .accepted w := by
  constructor
  · intro hw
    unfold reread? at hw
    split at hw
    · next saved hsaved =>
      split at hw
      · next hwritable =>
        have hstored := (h _ _ hsaved).2 depth room hwritable hroom
        rw [kept_eq hstored]
        exact ⟨⟨saved, hstored⟩, hwritable, Verdict.result?_eq_some.1 hw⟩
      · cases hw
    · cases hw
  · rintro ⟨hok, hwritable, hread⟩
    have hstored : storedIn (depth + 2) shape v = .ok (kept room shape v) :=
      h.kept hok hwritable (Nat.lt_succ_self _)
    rw [reread?, hstored]
    simp [hwritable, hread, Verdict.result?]

/-! ### Lists and mappings -/

theorem accepted_of_readItems {read : Value → Verdict Value} : ∀ {n : Nat} {xs ys : List Value},
    readItems read n xs = .accepted ys → ∀ x ∈ xs, ∃ y, read x = .accepted y
  | _, [], _, _ => by simp
  | n, x :: xs, ys, h => by
    obtain ⟨y, zs, hy, hzs, -⟩ := Verdict.both_accepted.1 h
    exact List.forall_mem_cons.2 ⟨⟨y, Verdict.under_accepted.1 hy⟩, accepted_of_readItems hzs⟩

theorem accepted_of_readEntries {read : Value → Verdict Value} :
    ∀ {es fs : List (String × Value)}, readEntries read es = .accepted fs →
      ∀ e ∈ es, ∃ y, read e.2 = .accepted y
  | [], _, _ => by simp
  | (k, x) :: es, fs, h => by
    obtain ⟨y, gs, hy, hgs, -⟩ := Verdict.both_accepted.1 h
    exact List.forall_mem_cons.2 ⟨⟨y, Verdict.under_accepted.1 hy⟩, accepted_of_readEntries hgs⟩

/-- A list is read again just if its items are. -/
theorem reread?_list {xs : List Value} (h : ∀ x ∈ xs, StoresAlike item x) :
    reread? depth (.list item) (.list xs) = some w ↔ ∃ d, depth = d + 1 ∧
      (∀ x ∈ xs, rereads d item x = true) ∧ w = .list (xs.map (again d item)) := by
  have hpart : ∀ d x, x ∈ xs → ∀ y, reread? d item x = some y ↔ _ := fun d x hx y =>
    reread?_iff_of_room (d + 3) (h x hx) (by omega)
  have hread : ∀ d, (∀ x ∈ xs, rereads d item x = true) →
      validate (.list item) (Value.list (xs.map (kept (d + 3) item))).readBack =
        .accepted (.list (xs.map (again d item))) := by
    intro d hall
    rw [readBack_list, List.map_map]
    exact validate_list fun x hx => ((hpart d x hx _).1 (reread?_again (hall x hx))).2.2
  rw [reread?_iff_of_room (depth + 2) (storesAlike_list h) (Nat.lt_succ_self _)]
  constructor
  · rintro ⟨⟨saved, hsaved⟩, hwritable, hw⟩
    obtain ⟨hok, rfl⟩ := storedIn_list_ok.1 hsaved
    rw [kept_eq hsaved] at hwritable hw
    obtain ⟨d, rfl, hitems⟩ := Json.writable_list.1 hwritable
    have hall : ∀ x ∈ xs, rereads d item x = true := by
      intro x hx
      rw [readBack_list, List.map_map, validate] at hw
      obtain ⟨ys, hys, -⟩ := Verdict.map_accepted.1 hw
      obtain ⟨y, hy⟩ := accepted_of_readItems hys _ (List.mem_map_of_mem hx)
      exact rereads_iff.2 ⟨y, (hpart d x hx y).2
        ⟨hok x hx, hitems _ (List.mem_map_of_mem hx), hy⟩⟩
    exact ⟨d, rfl, hall, (Verdict.accepted.inj ((hread d hall).symm.trans hw)).symm⟩
  · rintro ⟨d, rfl, hall, rfl⟩
    have hparts := fun x hx => (hpart d x hx _).1 (reread?_again (hall x hx))
    have hsaved : storedIn (d + 3) (.list item) (.list xs) =
        .ok (.list (xs.map (kept (d + 3) item))) :=
      storedIn_list_ok.2 ⟨fun x hx => (hparts x hx).1, rfl⟩
    rw [kept_eq hsaved]
    refine ⟨⟨_, hsaved⟩, Json.writable_list.2 ⟨d, rfl, ?_⟩, hread d hall⟩
    rw [List.forall_mem_map]
    exact fun x hx => (hparts x hx).2.1

theorem rereads_list {xs : List Value} (h : ∀ x ∈ xs, StoresAlike item x) :
    rereads depth (.list item) (.list xs) = true ↔
      ∃ d, depth = d + 1 ∧ ∀ x ∈ xs, rereads d item x = true := by
  simp [rereads_iff, reread?_list h]

theorem readBack_mapValues {f : Value → Value} {es : List (String × Value)} :
    (Value.mapping (es.map fun e => (e.1, f e.2))).readBack =
      .mapping ((Table.sorted es).map fun e => (e.1, (f e.2).readBack)) := by
  rw [readBack_mapping, List.map_map, Table.map_sorted fun x => (f x).readBack]
  rfl

/-- A mapping is read again just if its values are. -/
theorem rereads_mapping {es : List (String × Value)} (hkeys : (Table.keys es).Nodup)
    (h : ∀ e ∈ es, StoresAlike item e.2) : rereads depth (.mapping item) (.mapping es) = true ↔
      ∃ d, depth = d + 1 ∧ ∀ e ∈ es, rereads d item e.2 = true := by
  have hpart : ∀ d e, e ∈ es → ∀ y, reread? d item e.2 = some y ↔ _ := fun d e he y =>
    reread?_iff_of_room (d + 3) (h e he) (by omega)
  simp only [rereads_iff, reread?_iff_of_room (depth + 2) (storesAlike_mapping hkeys h)
    (Nat.lt_succ_self _)]
  constructor
  · rintro ⟨w, ⟨saved, hsaved⟩, hwritable, hw⟩
    obtain ⟨hok, rfl⟩ := storedIn_mapping_ok.1 hsaved
    rw [kept_eq hsaved] at hwritable hw
    obtain ⟨d, rfl, hentries⟩ := Json.writable_mapping.1 hwritable
    rw [readBack_mapValues, validate] at hw
    obtain ⟨fs, hfs, -⟩ := Verdict.map_accepted.1 hw
    refine ⟨d, rfl, fun e he => ?_⟩
    obtain ⟨y, hy⟩ := accepted_of_readEntries hfs _
      (List.mem_map_of_mem (Table.mem_sorted.2 he))
    exact ⟨y, (hpart d e he y).2 ⟨hok e he, hentries _ (List.mem_map_of_mem he), hy⟩⟩
  · rintro ⟨d, rfl, hall⟩
    have hparts := fun e he => (hpart d e he _).1 (reread?_again (rereads_iff.2 (hall e he)))
    have hsaved : storedIn (d + 3) (.mapping item) (.mapping es) =
        .ok (.mapping (es.map fun e => (e.1, kept (d + 3) item e.2))) :=
      storedIn_mapping_ok.2 ⟨fun e he => (hparts e he).1, rfl⟩
    refine ⟨.mapping ((Table.sorted es).map fun e => (e.1, again d item e.2)), ?_⟩
    rw [kept_eq hsaved]
    refine ⟨⟨_, hsaved⟩, Json.writable_mapping.2 ⟨d, rfl, ?_⟩, ?_⟩
    · rw [List.forall_mem_map]
      exact fun e he => (hparts e he).2.1
    · rw [readBack_mapValues]
      exact validate_mapping (f := fun x => (kept (d + 3) item x).readBack) (g := again d item)
        fun e he => (hparts e (Table.mem_sorted.1 he)).2.2

/-! ### What may be null -/

theorem form_of_freely {room : Nat} (h : storedFreely room v = .ok w) : w.form = v.form := by
  unfold storedFreely at h
  split at h
  · cases h
  · cases h
    exact form_dump v

/-- What is stored is written in the form of what it is stored from. -/
theorem form_of_stored {room : Nat} : ∀ shape : Shape, storedIn room shape v = .ok w →
    w.form = v.form
  | .any, h | .text, h | .truth, h | .choice _, h => form_of_freely h
  | .whole, h | .number, h => by
    cases v with
    | bool b =>
      cases h
      rfl
    | _ => exact form_of_freely h
  | .real, h => by
    match v, h with
    | .bool b, h =>
      cases h
      rfl
    | .number (.int n), h =>
      obtain ⟨x, -, rfl⟩ := Outcome.map_ok.1 h
      rfl
    | .number (.float x), h | .null, h | .text s, h | .list xs, h | .mapping es, h | .entity k ss, h
    | .builtin b, h => exact form_of_freely h
  | .list item, h => by
    cases v with
    | list xs =>
      obtain ⟨-, rfl⟩ := storedIn_list_ok.1 h
      rfl
    | _ => exact form_of_freely h
  | .mapping item, h => by
    cases v with
    | mapping es =>
      obtain ⟨-, rfl⟩ := storedIn_mapping_ok.1 h
      rfl
    | _ => exact form_of_freely h
  | .optional inner, h => by
    by_cases hnull : v = .null
    · subst hnull
      cases h
      rfl
    · rw [storedIn_optional hnull] at h
      exact form_of_stored inner h
  | .record kind fields, h => by
    cases v with
    | entity k slots =>
      rw [storedIn] at h
      split at h
      · obtain ⟨_, -, h⟩ := Outcome.bind_ok.1 h
        obtain ⟨_, -, h⟩ := Outcome.bind_ok.1 h
        cases h
        rfl
      · exact form_of_freely h
    | _ => exact form_of_freely h

/-- That a field may be null makes no difference to what is not. -/
theorem reread?_optional (hv : v.form ≠ .single) :
    reread? depth (.optional inner) v = reread? depth inner v := by
  have hnull : ∀ u : Value, u.form = v.form → u ≠ .null := by
    rintro _ hu rfl
    exact hv hu.symm
  rw [reread?, reread?, storedIn_optional (hnull v rfl)]
  cases h : storedIn (depth + 2) inner v with
  | error fault => rfl
  | ok saved =>
    simp only [validate_optional (hnull _ ((form_readBack saved).trans (form_of_stored inner h)))]

theorem reread?_core (hv : v.form ≠ .single) :
    reread? depth shape.core v = reread? depth shape v := by
  induction shape using Shape.core.induct with
  | case1 inner ih => rw [Shape.core, ih, reread?_optional hv]
  | case2 shape hshape =>
    cases shape with
    | optional inner => exact absurd rfl (hshape inner)
    | _ => rfl

theorem rereads_core (hv : v.form ≠ .single) :
    rereads depth shape.core v = rereads depth shape v := by
  rw [rereads, rereads, reread?_core hv]

end Schema

end StoryWorld
