import StoryWorld.Table
import Mathlib.Data.List.Nodup

/-!
Laws of tables.

What is read under a key, and which keys there are, before and after a write. A table that has each
key once is told by its keys in their order and by what is read under each of them.
-/

namespace StoryWorld

namespace Table

/-! ### Keys -/

section Keys

variable {κ α β : Type} {t u : List (κ × α)}

theorem keys_perm (h : t.Perm u) : (keys t).Perm (keys u) := h.map _

theorem keys_mapValues (f : α → β) (t : List (κ × α)) :
    keys (t.map fun e => (e.1, f e.2)) = keys t := by
  simp [keys]

theorem nodup_keys_filter (h : (keys t).Nodup) (p : κ × α → Bool) : (keys (t.filter p)).Nodup :=
  List.Nodup.sublist (List.Sublist.map _ List.filter_sublist) h

end Keys

variable {κ α : Type} [DecidableEq κ] {t u : List (κ × α)} {key other : κ} {value v w : α}

/-! ### Reading -/

theorem get?_eq_some_iff (h : (keys t).Nodup) : get? key t = some value ↔ (key, value) ∈ t := by
  refine ⟨mem_of_get?, ?_⟩
  induction t with
  | nil => simp
  | cons entry rest ih =>
    obtain ⟨k, v⟩ := entry
    rw [keys, List.map_cons, List.nodup_cons] at h
    intro hmem
    rw [get?_cons]
    rcases List.mem_cons.1 hmem with heq | hmem
    · cases heq
      rw [if_pos rfl]
    · have hne : k ≠ key := by
        rintro rfl
        exact h.1 (List.mem_map.2 ⟨(k, value), hmem, rfl⟩)
      rw [if_neg hne]
      exact ih h.2 hmem

theorem get?_eq_none_iff : get? key t = none ↔ key ∉ keys t := by
  induction t with
  | nil => simp [keys]
  | cons entry rest ih =>
    obtain ⟨k, v⟩ := entry
    rw [get?_cons, keys, List.map_cons, List.mem_cons, ← keys]
    by_cases hk : k = key
    · simp [hk]
    · simp [hk, ih, Ne.symm hk]

theorem has_iff : has key t = true ↔ ∃ v, get? key t = some v := by
  rw [has, Option.isSome_iff_exists]

theorem has_iff_mem : has key t = true ↔ key ∈ keys t := by
  rw [has, Option.isSome_iff_ne_none, ne_eq, get?_eq_none_iff, not_not]

theorem mem_keys_iff : key ∈ keys t ↔ ∃ v, get? key t = some v := by
  rw [← has_iff_mem, has_iff]

theorem mem_keys_of_get? {v : α} (h : get? key t = some v) : key ∈ keys t := mem_keys_iff.2 ⟨v, h⟩

/-- A table is its keys, each with what is read under it. -/
theorem eq_map_keys (h : (keys t).Nodup) (default : α) :
    t = (keys t).map fun k => (k, (get? k t).getD default) := by
  rw [keys, List.map_map]
  refine (List.map_id' t).symm.trans (List.map_congr_left fun e he => ?_)
  rw [Function.comp_apply, (get?_eq_some_iff h).2 he]
  rfl

/-- Tables with the same keys are the same if the same is read under each. -/
theorem eq_of_get? (hn : (keys t).Nodup) (hkeys : keys u = keys t)
    (h : ∀ key ∈ keys t, get? key u = get? key t) : u = t := by
  cases t with
  | nil => simpa [keys] using hkeys
  | cons e rest =>
    have hsame : ∀ key ∈ keys (e :: rest), (key, (get? key u).getD e.2) =
        (key, (get? key (e :: rest)).getD e.2) := fun key hkey => by rw [h key hkey]
    calc u = (keys u).map fun key => (key, (get? key u).getD e.2) :=
          eq_map_keys (hkeys ▸ hn) e.2
      _ = (keys (e :: rest)).map fun key => (key, (get? key (e :: rest)).getD e.2) := by
          rw [hkeys, List.map_congr_left hsame]
      _ = e :: rest := (eq_map_keys hn e.2).symm

/-- The order of the entries makes no difference to what is read. -/
theorem get?_perm (hn : (keys t).Nodup) (h : t.Perm u) : get? key t = get? key u := by
  refine Option.ext fun v => ?_
  rw [get?_eq_some_iff hn, get?_eq_some_iff ((keys_perm h).nodup_iff.1 hn), h.mem_iff]

/-! ### Writing -/

/-- Of two writes to one key the second counts. -/
theorem put_put (key : κ) (v w : α) : ∀ table : List (κ × α),
    put key w (put key v table) = put key w table
  | [] => by simp [put]
  | (k, x) :: rest => by
    by_cases hk : k = key
    · simp [put, hk]
    · simp [put, hk, put_put key v w rest]

theorem put_of_not_mem (h : key ∉ keys t) : put key value t = t ++ [(key, value)] := by
  induction t with
  | nil => rfl
  | cons entry rest ih =>
    obtain ⟨k, v⟩ := entry
    rw [keys, List.map_cons, List.mem_cons, not_or] at h
    rw [put, if_neg (Ne.symm h.1), ih h.2, List.cons_append]

/-- Giving a present key another value leaves the keys as they are. -/
theorem keys_put (h : has key t = true) : keys (put key v t) = keys t := by
  induction t with
  | nil => cases h
  | cons entry rest ih =>
    obtain ⟨k, x⟩ := entry
    by_cases hk : k = key
    · simp [put, hk, keys]
    · have hrest : has key rest = true := by simpa [has, get?, hk] using h
      simpa [put, hk, keys] using ih hrest

/-- A key that is not there comes after all others. -/
theorem keys_put_of_not_mem (h : key ∉ keys t) : keys (put key v t) = keys t ++ [key] := by
  rw [put_of_not_mem h, keys, List.map_append]
  rfl

theorem mem_keys_put : other ∈ keys (put key v t) ↔ other = key ∨ other ∈ keys t := by
  by_cases h : other = key
  · simp [← has_iff_mem, has, h]
  · simp [← has_iff_mem, has, get?_put_of_ne h, h]

theorem nodup_keys_put (h : (keys t).Nodup) : (keys (put key v t)).Nodup := by
  by_cases hhas : has key t = true
  · rwa [keys_put hhas]
  · have hmem : key ∉ keys t := fun hmem => hhas (has_iff_mem.2 hmem)
    rw [keys_put_of_not_mem hmem]
    refine h.append (List.nodup_singleton key) fun k hk hk' => hmem ?_
    obtain rfl := List.mem_singleton.1 hk'
    exact hk

theorem has_put (h : has key t = true) : has other (put key v t) = has other t := by
  by_cases ho : other = key
  · subst ho
    rw [h, has, get?_put_self]
    rfl
  · rw [has, get?_put_of_ne ho, has]

/-- Writes to two present keys can be made in either order. -/
theorem put_comm (hne : key ≠ other) (hk : has key t = true) (ho : has other t = true) :
    put other w (put key v t) = put key v (put other w t) := by
  induction t with
  | nil => cases hk
  | cons entry rest ih =>
    obtain ⟨k, x⟩ := entry
    by_cases h : k = key
    · subst h
      simp [put, hne]
    · by_cases h' : k = other
      · subst h'
        simp [put, hne.symm]
      · have hk' : has key rest = true := by simpa [has, get?, h] using hk
        have ho' : has other rest = true := by simpa [has, get?, h'] using ho
        simp [put, h, h', ih hk' ho']

/-- Pairs with different keys are a table as they stand. -/
theorem ofPairs_eq (h : (keys t).Nodup) : ofPairs t = t := by
  have hfoldl : ∀ rest done : List (κ × α), (keys (done ++ rest)).Nodup →
      rest.foldl (fun table pair => put pair.1 pair.2 table) done = done ++ rest := by
    intro rest
    induction rest with
    | nil => simp
    | cons pair rest ih =>
      intro done hn
      have hfresh : pair.1 ∉ keys done := by
        intro hmem
        rw [keys, List.map_append, List.map_cons, List.nodup_append] at hn
        exact hn.2.2 _ hmem _ List.mem_cons_self rfl
      rw [List.foldl_cons, put_of_not_mem hfresh, ih _ (by simpa using hn), List.append_assoc]
      rfl
  exact hfoldl t [] (by simpa using h)

end Table

end StoryWorld
