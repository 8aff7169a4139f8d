import StoryWorld.Proofs.Written

/-!
The canonical form is a faithful one.

It is read as a document that differs from the written one in the order of keys only, and two
documents have the same canonical form just if that is all they differ in. So what is written tells
everything about a document but the order of its keys, and nothing else.
-/

namespace StoryWorld

namespace Table

section Sorted

variable {α β : Type} {t : List (String × α)}

theorem get?_mapValues (f : α → β) (t : List (String × α)) (k : String) :
    get? k (t.map fun e => (e.1, f e.2)) = (get? k t).map f := by
  induction t with
  | nil => rfl
  | cons e t ih =>
    rw [List.map_cons, get?_cons, get?_cons, ih]
    split <;> rfl

/-- Ordering a table and changing its values alike changes what is read under a key alike. -/
theorem get?_sorted_mapValues (hn : (keys t).Nodup) (f : α → β) (k : String) :
    get? k (sorted (t.map fun e => (e.1, f e.2))) = (get? k t).map f := by
  rw [get?_perm (nodup_keys_sorted.2 (by rwa [keys_mapValues])) (sorted_perm _), get?_mapValues]

/-- Tables with the same keys and the same values come to the same order. -/
theorem sorted_eq_of_get? {t u : List (String × α)} (hn : (keys t).Nodup)
    (hkeys : (keys t).Perm (keys u))
    (h : ∀ k x y, get? k t = some x → get? k u = some y → x = y) : sorted t = sorted u := by
  have hperm : t.Perm u := by
    rw [List.perm_ext_iff_of_nodup hn.of_map (hkeys.nodup_iff.1 hn).of_map]
    rintro ⟨k, x⟩
    rw [← get?_eq_some_iff hn, ← get?_eq_some_iff (hkeys.nodup_iff.1 hn)]
    have hmem : k ∈ keys t ↔ k ∈ keys u := hkeys.mem_iff
    cases ht : get? k t <;> cases hu : get? k u
    · rfl
    · exact absurd (hmem.2 (List.mem_map.2 ⟨_, mem_of_get? hu, rfl⟩)) (get?_eq_none_iff.1 ht)
    · exact absurd (hmem.1 (List.mem_map.2 ⟨_, mem_of_get? ht, rfl⟩)) (get?_eq_none_iff.1 hu)
    · rw [h k _ _ ht hu]
  exact sorted_eq_of_perm hn hperm

end Sorted

end Table

namespace Value

/-- One document is the other with its keys in another order, at every depth: lists have the same
items in the same order, mappings the same keys, each with the same value. -/
inductive Rearranged : Value → Value → Prop
  | null : Rearranged null null
  | bool (b : Bool) : Rearranged (bool b) (bool b)
  | number (n : Number) : Rearranged (number n) (number n)
  | text (s : String) : Rearranged (text s) (text s)
  | list {xs ys : List Value} (length : xs.length = ys.length)
    (items : ∀ (i : Nat) x y, xs[i]? = some x → ys[i]? = some y → Rearranged x y) :
    Rearranged (list xs) (list ys)
  | mapping {es fs : List (String × Value)} (keys : (Table.keys es).Perm (Table.keys fs))
    (values : ∀ k x y, Table.get? k es = some x → Table.get? k fs = some y → Rearranged x y) :
    Rearranged (mapping es) (mapping fs)

/-- Documents that differ in the order of keys only become the same with their keys in order. -/
theorem Rearranged.sorted_eq {v w : Value} (hv : v.isDocument = true) (h : Rearranged v w) :
    v.sorted = w.sorted := by
  induction h with
  | list length items ih =>
    rw [isDocument_list] at hv
    rw [sorted_list, sorted_list]
    congr 1
    refine List.ext_getElem (by simpa using length) fun i hx hy => ?_
    rw [List.length_map] at hx hy
    rw [List.getElem_map, List.getElem_map]
    exact ih i _ _ (List.getElem?_eq_getElem hx) (List.getElem?_eq_getElem hy)
      (hv _ (List.getElem_mem hx))
  | mapping keys values ih =>
    rw [isDocument_mapping] at hv
    rw [sorted_mapping, sorted_mapping]
    congr 1
    refine Table.sorted_eq_of_get? (by rw [Table.keys_mapValues]; exact hv.1)
      (by rwa [Table.keys_mapValues, Table.keys_mapValues]) fun k x y hx hy => ?_
    rw [Table.get?_mapValues] at hx hy
    obtain ⟨x, hxs, rfl⟩ := Option.map_eq_some_iff.1 hx
    obtain ⟨y, hys, rfl⟩ := Option.map_eq_some_iff.1 hy
    exact ih k x y hxs hys (hv.2 _ (Table.mem_of_get? hxs))
  | _ => rfl

/-- Documents that become the same with their keys in order differ in that order only. -/
theorem rearranged_of_sorted {v w : Value} (hv : v.isDocument = true) (hw : w.isDocument = true)
    (h : v.sorted = w.sorted) : Rearranged v w := by
  induction v using induct generalizing w with
  | list xs ih =>
    cases w with
    | list ys =>
      rw [sorted_list, sorted_list, list.injEq] at h
      rw [isDocument_list] at hv hw
      have hlength : xs.length = ys.length := by simpa using congrArg List.length h
      refine .list hlength fun i x y hx hy => ?_
      have hxs := List.mem_of_getElem? hx
      refine ih x hxs (hv x hxs) (hw y (List.mem_of_getElem? hy)) ?_
      have hi := congrArg (·[i]?) h
      simpa [hx, hy] using hi
    | _ => simp [sorted] at h
  | mapping es ih =>
    cases w with
    | mapping fs =>
      rw [sorted_mapping, sorted_mapping, mapping.injEq] at h
      rw [isDocument_mapping] at hv hw
      refine .mapping ?_ fun k x y hx hy => ?_
      · have hkeys := Table.keys_perm (Table.sorted_perm (es.map fun e => (e.1, e.2.sorted)))
        rw [h, Table.keys_mapValues] at hkeys
        refine hkeys.symm.trans ((Table.keys_perm (Table.sorted_perm _)).trans ?_)
        rw [Table.keys_mapValues]
      · have hmem := Table.mem_of_get? hx
        refine ih (k, x) hmem (hv.2 _ hmem) (hw.2 _ (Table.mem_of_get? hy)) ?_
        have hget := congrArg (Table.get? k) h
        rw [Table.get?_sorted_mapValues hv.1, Table.get?_sorted_mapValues hw.1, hx, hy] at hget
        exact Option.some.inj hget
    | _ => simp [sorted] at h
  | entity => cases hv
  | builtin => cases hv
  | null => cases w <;> simp [sorted] at h; exact .null
  | bool b => cases w <;> simp [sorted] at h; subst h; exact .bool b
  | number n => cases w <;> simp [sorted] at h; subst h; exact .number n
  | text s => cases w <;> simp [sorted] at h; subst h; exact .text s

theorem rearranged_iff {v w : Value} (hv : v.isDocument = true) (hw : w.isDocument = true) :
    Rearranged v w ↔ v.sorted = w.sorted :=
  ⟨fun h => h.sorted_eq hv, rearranged_of_sorted hv hw⟩

end Value

namespace Json

/-- A document, with numbers that can be stored, has a canonical form just if it nests no deeper
than what can be written. The form is read as the document with its keys in another order, and it is
that of just those documents which differ from it in the order of keys only. -/
theorem canonical_faithful {v : Value} (hd : v.isDocument = true)
    (hn : ∀ n ∈ v.numbers, n.isStorable = true) :
    ((∃ s, canonical? v = some s) ↔ v.nesting ≤ writeDepth) ∧
      ∀ s, canonical? v = some s →
        (∃ u, read? stored s = some u ∧ u.Rearranged v) ∧
          ∀ w, w.isDocument = true → (∀ n ∈ w.numbers, n.isStorable = true) →
            (canonical? w = some s ↔ v.Rearranged w) := by
  refine ⟨?_, fun s hs => ⟨⟨v.sorted, read?_canonical? hd hn hs, ?_⟩, fun w hw hnw => ?_⟩⟩
  · rw [← writable_iff hd hn, writable, Option.isSome_iff_exists]
    rfl
  · exact Value.rearranged_of_sorted (Value.isDocument_sorted hd) hd (Value.sorted_sorted v)
  · rw [Value.rearranged_iff hd hw]
    constructor
    · intro hsame
      have hread := read?_canonical? hw hnw hsame
      rw [read?_canonical? hd hn hs] at hread
      exact Option.some.inj hread
    · intro hsorted
      rw [canonical?, ← write?_sorted, ← hsorted, write?_sorted]
      exact hs

/-- A document with objects in objects, a list, and texts that have to be escaped. -/
def quoting : Value :=
  .mapping [("b", .list [.int (-7), .text "line\n\"end\"", .null]),
    ("a", .mapping [("y", .bool true), ("x", .text "Καῖσαρ")])]

/-- The same document with its keys in another order. -/
def quotingTurned : Value :=
  .mapping [("a", .mapping [("x", .text "Καῖσαρ"), ("y", .bool true)]),
    ("b", .list [.int (-7), .text "line\n\"end\"", .null])]

/-- The two are written alike, and what is written is read as the document. -/
theorem canonical_faithful_quoting : ∃ s u, canonical? quoting = some s ∧
    read? stored s = some u ∧ u.Rearranged quoting ∧
      (canonical? quotingTurned = some s ↔ quoting.Rearranged quotingTurned) := by
  obtain ⟨hexists, hfaithful⟩ := canonical_faithful (v := quoting) (by decide +kernel)
    (by decide +kernel)
  obtain ⟨s, hs⟩ := hexists.2 (by decide +kernel)
  obtain ⟨⟨u, hu, hsame⟩, hiff⟩ := hfaithful s hs
  exact ⟨s, u, hs, hu, hsame, hiff quotingTurned (by decide +kernel) (by decide +kernel)⟩

/-- Objects and lists in turn, in one another. -/
def layered : Nat → Value
  | 0 => .mapping []
  | depth + 1 => .list [.mapping [("in", layered depth)]]

/-- A document of texts and containers alone that nests one level too deep is not written. -/
theorem canonical_refused_layered : (layered 127).isDocument = true ∧
    (∀ n ∈ (layered 127).numbers, n.isStorable = true) ∧ canonical? (layered 127) = none := by
  decide +kernel

end Json

end StoryWorld
