import StoryWorld.Proofs.Written

/-!
What is read of a document that was written, whatever its floats.

A float that is no number is written `null`, so it is `null` that is read there; all else is read as
it was, with the keys in order. A document can be written if its whole numbers have 64 bits and it
does not nest too deep.
-/

namespace StoryWorld

namespace Value

mutual

/-- A document with nothing in the place of each float that is no number. -/
def asWritten : Value → Value
  | number (.float x) => if x.isFinite then float x else null
  | list xs => list (asWrittenItems xs)
  | mapping es => mapping (asWrittenEntries es)
  | v => v

/-- The items of a list as they are written. -/
def asWrittenItems : List Value → List Value
  | [] => []
  | x :: xs => asWritten x :: asWrittenItems xs

/-- The entries of a mapping as they are written. -/
def asWrittenEntries : List (String × Value) → List (String × Value)
  | [] => []
  | (k, x) :: es => (k, asWritten x) :: asWrittenEntries es

end

/-- What is read again of a document that was written. -/
def readBack (v : Value) : Value := v.asWritten.sorted

variable {v : Value} {xs : List Value} {es : List (String × Value)}

@[simp] theorem asWritten_list : (list xs).asWritten = list (xs.map asWritten) := by
  rw [asWritten]
  congr 1
  induction xs with
  | nil => rfl
  | cons x xs ih => rw [asWrittenItems, ih, List.map_cons]

@[simp] theorem asWritten_mapping :
    (mapping es).asWritten = mapping (es.map fun e => (e.1, e.2.asWritten)) := by
  rw [asWritten]
  congr 1
  induction es with
  | nil => rfl
  | cons e es ih => rw [asWrittenEntries, ih, List.map_cons]

/-- A document whose numbers can be stored is written as it is. -/
theorem asWritten_eq (h : v.isDocument = true) (hn : ∀ n ∈ v.numbers, n.isStorable = true) :
    v.asWritten = v := by
  induction v, h using document_induct with
  | number n =>
    cases n with
    | int n => rfl
    | float x =>
      rw [asWritten]
      exact if_pos (hn (.float x) List.mem_cons_self)
  | list xs _ ih =>
    rw [asWritten_list, List.map_congr_left (g := id) fun x hx => ih x hx fun n hmem =>
      hn n (mem_numbers_list.2 ⟨x, hx, hmem⟩), List.map_id]
  | mapping es _ _ ih =>
    rw [asWritten_mapping, List.map_congr_left (g := id) fun e he => ?_, List.map_id]
    exact Prod.ext rfl (ih e he fun n hmem => hn n (mem_numbers_mapping.2 ⟨e, he, hmem⟩))
  | _ => rfl

theorem isDocument_asWritten (h : v.isDocument = true) : v.asWritten.isDocument = true := by
  induction v, h using document_induct with
  | number n =>
    cases n with
    | int n => rfl
    | float x =>
      rw [asWritten]
      split <;> rfl
  | list xs _ ih =>
    rw [asWritten_list, isDocument_list, List.forall_mem_map]
    exact ih
  | mapping es hkeys _ ih =>
    rw [asWritten_mapping, isDocument_mapping, Table.keys_mapValues, List.forall_mem_map]
    exact ⟨hkeys, ih⟩
  | _ => rfl

@[simp] theorem readBack_list : (list xs).readBack = list (xs.map readBack) := by
  rw [readBack, asWritten_list, sorted_list, List.map_map]
  rfl

@[simp] theorem readBack_mapping :
    (mapping es).readBack = mapping (Table.sorted (es.map fun e => (e.1, e.2.readBack))) := by
  rw [readBack, asWritten_mapping, sorted_mapping, List.map_map]
  rfl

end Value

namespace Json

variable {v : Value} {depth : Nat}

/-- What a document is written as is what it is read as again is written as. -/
theorem write?_asWritten (depth : Nat) (v : Value) : write? depth v.asWritten = write? depth v := by
  induction v using Value.induct generalizing depth with
  | number n =>
    cases n with
    | int n => rfl
    | float x =>
      rw [Value.asWritten]
      split
      · rfl
      · next h =>
        rw [Binary.isFinite_eq, Bool.not_eq_true, Option.isSome_eq_false_iff,
          Option.isNone_iff_eq_none] at h
        simp only [write?, writeNumber?, h]
  | list xs ih => rw [Value.asWritten_list, write?_list_map fun x hx depth => ih x hx depth]
  | mapping es ih =>
    rw [Value.asWritten_mapping, write?_mapping_map fun e he depth => ih e he depth]
  | _ => rfl

/-- The numbers of what can be written can be stored, those left out that are none. -/
theorem isStorable_of_writable (h : writable depth v = true) :
    ∀ n ∈ v.asWritten.numbers, n.isStorable = true := by
  induction v using Value.induct generalizing depth with
  | number n =>
    intro m hm
    cases n with
    | int n =>
      obtain rfl := List.mem_singleton.1 hm
      by_contra hn
      rw [Number.isStorable] at hn
      simp [writable, write?, writeNumber?, hn] at h
    | float x =>
      rw [Value.asWritten] at hm
      split at hm
      · next hx =>
        obtain rfl := List.mem_singleton.1 hm
        exact hx
      · cases hm
  | list xs ih =>
    obtain ⟨d, -, hxs⟩ := writable_list.1 h
    intro n hn
    rw [Value.asWritten_list, Value.mem_numbers_list] at hn
    obtain ⟨_, hmem, hn⟩ := hn
    obtain ⟨x, hx, rfl⟩ := List.mem_map.1 hmem
    exact ih x hx (hxs x hx) n hn
  | mapping es ih =>
    obtain ⟨d, -, hes⟩ := writable_mapping.1 h
    intro n hn
    rw [Value.asWritten_mapping, Value.mem_numbers_mapping] at hn
    obtain ⟨_, hmem, hn⟩ := hn
    obtain ⟨e, he, rfl⟩ := List.mem_map.1 hmem
    exact ih e he (hes e he) n hn
  | entity => cases h
  | builtin => cases h
  | _ =>
    intro n hn
    cases hn

/-- The canonical text of any document that has one is read as the document as it is written, with
its keys in order. -/
theorem read?_of_canonical? {s : List Char} (hd : v.isDocument = true)
    (h : canonical? v = some s) : read? stored s = some v.readBack := by
  have hwritable : writable writeDepth v = true := by
    rw [writable, ← canonical?, h]
    rfl
  refine read?_canonical? (Value.isDocument_asWritten hd) (isStorable_of_writable hwritable) ?_
  rw [canonical?, write?_asWritten]
  exact h

/-- What can be written has no more levels than it may nest, and one. -/
theorem levels_le_of_writable (h : writable depth v = true) : v.levels ≤ depth + 1 := by
  induction v using Value.induct generalizing depth with
  | list xs ih =>
    obtain ⟨d, rfl, hxs⟩ := writable_list.1 h
    exact Value.levels_list_le.2 fun x hx => ih x hx (hxs x hx)
  | mapping es ih =>
    obtain ⟨d, rfl, hes⟩ := writable_mapping.1 h
    exact Value.levels_mapping_le.2 fun e he => ih e he (hes e he)
  | entity => cases h
  | _ => simp [Value.levels]

end Json

end StoryWorld
