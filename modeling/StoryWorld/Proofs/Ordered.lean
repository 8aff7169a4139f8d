import StoryWorld.Json.Canonical
import StoryWorld.Proofs.Tables
import StoryWorld.Schema.Document
import Mathlib.Data.List.Sort

/-!
Documents with their keys in order.

A document holds neither entities nor anything built in, and a mapping in it has a key only once. So
the order of its keys can be brought into that of their code points without changing what it says:
each key keeps its value, and two documents with the same entries become one.
-/

namespace StoryWorld

namespace Table

/-! ### The order of keys -/

section Sorting

variable {α β : Type} {t u : List (String × α)}

/-- Whether the key of one entry comes no later than that of another, by code point. -/
def keyLe (a b : String × α) : Bool := decide ¬ b.1 < a.1

/-- A table with its keys in order. -/
def sorted (t : List (String × α)) : List (String × α) := t.mergeSort keyLe

theorem keyLe_iff {a b : String × α} : keyLe a b = true ↔ a.1 ≤ b.1 := by
  rw [keyLe, decide_eq_true_iff, String.not_lt]

theorem sorted_perm (t : List (String × α)) : (sorted t).Perm t := List.mergeSort_perm t keyLe

theorem pairwise_sorted (t : List (String × α)) :
    (sorted t).Pairwise fun a b => keyLe a b = true := by
  refine List.pairwise_mergeSort ?_ ?_ t
  · intro a b c hab hbc
    exact keyLe_iff.2 (String.le_trans (keyLe_iff.1 hab) (keyLe_iff.1 hbc))
  · intro a b
    rw [Bool.or_eq_true, keyLe_iff, keyLe_iff]
    exact String.le_total a.1 b.1

@[simp] theorem mem_sorted {e : String × α} : e ∈ sorted t ↔ e ∈ t := (sorted_perm t).mem_iff

theorem nodup_keys_sorted : (keys (sorted t)).Nodup ↔ (keys t).Nodup :=
  (keys_perm (sorted_perm t)).nodup_iff

theorem sorted_of_pairwise (h : t.Pairwise fun a b => keyLe a b = true) : sorted t = t :=
  List.mergeSort_of_pairwise h

@[simp] theorem sorted_sorted (t : List (String × α)) : sorted (sorted t) = sorted t :=
  sorted_of_pairwise (pairwise_sorted t)

/-- Two tables with the same entries become the same. -/
theorem sorted_eq_of_perm (hn : (keys t).Nodup) (h : t.Perm u) : sorted t = sorted u := by
  have hperm : (sorted t).Perm (sorted u) :=
    (sorted_perm t).trans (h.trans (sorted_perm u).symm)
  refine hperm.eq_of_pairwise ?_ (pairwise_sorted t) (pairwise_sorted u)
  rintro ⟨k, v⟩ ⟨l, w⟩ hv hw hkl hlk
  obtain rfl : k = l := String.le_antisymm (keyLe_iff.1 hkl) (keyLe_iff.1 hlk)
  have hget := (get?_eq_some_iff hn).2 (mem_sorted.1 hv)
  rw [(get?_eq_some_iff hn).2 (h.mem_iff.2 (mem_sorted.1 hw))] at hget
  cases hget
  rfl

theorem map_sorted (f : α → β) (t : List (String × α)) :
    (sorted t).map (fun e => (e.1, f e.2)) = sorted (t.map fun e => (e.1, f e.2)) :=
  List.map_mergeSort fun _ _ _ _ => rfl

theorem filter_sorted (hn : (keys t).Nodup) (p : String × α → Bool) :
    (sorted t).filter p = sorted (t.filter p) := by
  rw [← sorted_of_pairwise ((pairwise_sorted t).filter p)]
  exact sorted_eq_of_perm (nodup_keys_filter (nodup_keys_sorted.2 hn) p)
    ((sorted_perm t).filter p)

end Sorting

end Table

namespace Value

/-- Values by what they hold: a statement about all values that is inherited from the values in a
container holds. -/
@[elab_as_elim]
theorem induct {motive : Value → Prop} (null : motive null) (bool : ∀ b, motive (bool b))
    (number : ∀ n, motive (number n)) (text : ∀ s, motive (text s))
    (list : ∀ xs : List Value, (∀ x ∈ xs, motive x) → motive (list xs))
    (mapping : ∀ es : List (String × Value), (∀ e ∈ es, motive e.2) → motive (mapping es))
    (entity : ∀ kind (slots : List (Slot × Value)), (∀ e ∈ slots, motive e.2) →
      motive (entity kind slots))
    (builtin : ∀ b, motive (builtin b)) (v : Value) : motive v :=
  @Value.rec motive (fun xs => ∀ x ∈ xs, motive x) (fun es => ∀ e ∈ es, motive e.2)
    (fun slots => ∀ e ∈ slots, motive e.2) (fun e => motive e.2) (fun e => motive e.2)
    null bool number text list mapping entity builtin
    (by simp) (fun _ _ hx hxs => List.forall_mem_cons.2 ⟨hx, hxs⟩)
    (by simp) (fun _ _ he hes => List.forall_mem_cons.2 ⟨he, hes⟩)
    (by simp) (fun _ _ he hes => List.forall_mem_cons.2 ⟨he, hes⟩)
    (fun _ _ h => h) (fun _ _ h => h) v

/-! ### Documents -/

mutual

/-- Whether a value is one that a document can give: nothing in it is an entity or built in, and no
mapping has a key twice. -/
def isDocument : Value → Bool
  | list xs => areDocuments xs
  | mapping es => decide (Table.keys es).Nodup && holdDocuments es
  | entity _ _ => false
  | builtin _ => false
  | _ => true

/-- Whether every item of a list is one that a document can give. -/
def areDocuments : List Value → Bool
  | [] => true
  | x :: xs => isDocument x && areDocuments xs

/-- Whether every value of a mapping is one that a document can give. -/
def holdDocuments : List (String × Value) → Bool
  | [] => true
  | (_, x) :: es => isDocument x && holdDocuments es

end

mutual

/-- A document with the keys of every mapping in it in order. -/
def sorted : Value → Value
  | list xs => list (sortedItems xs)
  | mapping es => mapping (Table.sorted (sortedEntries es))
  | v => v

/-- The items of a list, each with its keys in order. -/
def sortedItems : List Value → List Value
  | [] => []
  | x :: xs => sorted x :: sortedItems xs

/-- The entries of a mapping, each value with its keys in order. -/
def sortedEntries : List (String × Value) → List (String × Value)
  | [] => []
  | (k, x) :: es => (k, sorted x) :: sortedEntries es

end

mutual

/-- The numbers that stand anywhere in a value. -/
def numbers : Value → List Number
  | number n => [n]
  | list xs => numbersOfItems xs
  | mapping es => numbersOfEntries es
  | entity _ slots => numbersOfSlots slots
  | _ => []

/-- The numbers in the items of a list. -/
def numbersOfItems : List Value → List Number
  | [] => []
  | x :: xs => numbers x ++ numbersOfItems xs

/-- The numbers in the values of a mapping. -/
def numbersOfEntries : List (String × Value) → List Number
  | [] => []
  | (_, x) :: es => numbers x ++ numbersOfEntries es

/-- The numbers in the slots of an entity. -/
def numbersOfSlots : List (Slot × Value) → List Number
  | [] => []
  | (_, x) :: rest => numbers x ++ numbersOfSlots rest

end

mutual

/-- How deep lists, mappings and entities nest in a value. -/
def nesting : Value → Nat
  | list xs => nestingOfItems xs + 1
  | mapping es => nestingOfEntries es + 1
  | entity _ slots => nestingOfSlots slots + 1
  | _ => 0

/-- The nesting of the deepest item. -/
def nestingOfItems : List Value → Nat
  | [] => 0
  | x :: xs => max (nesting x) (nestingOfItems xs)

/-- The nesting of the deepest value of a mapping. -/
def nestingOfEntries : List (String × Value) → Nat
  | [] => 0
  | (_, x) :: es => max (nesting x) (nestingOfEntries es)

/-- The nesting of the deepest slot. -/
def nestingOfSlots : List (Slot × Value) → Nat
  | [] => 0
  | (_, x) :: rest => max (nesting x) (nestingOfSlots rest)

end

variable {v : Value} {xs : List Value} {es : List (String × Value)} {kind : Kind}
  {slots : List (Slot × Value)} {n : Number} {d : Nat}

@[simp] theorem isDocument_list :
    (list xs).isDocument = true ↔ ∀ x ∈ xs, x.isDocument = true := by
  show areDocuments xs = true ↔ _
  induction xs with
  | nil => simp [areDocuments]
  | cons x xs ih => simp [areDocuments, ih]

theorem holdDocuments_iff : holdDocuments es = true ↔ ∀ e ∈ es, e.2.isDocument = true := by
  induction es with
  | nil => simp [holdDocuments]
  | cons e es ih =>
    rw [holdDocuments, Bool.and_eq_true, ih, List.forall_mem_cons]

@[simp] theorem isDocument_mapping : (mapping es).isDocument = true ↔
    (Table.keys es).Nodup ∧ ∀ e ∈ es, e.2.isDocument = true := by
  show (decide (Table.keys es).Nodup && holdDocuments es) = true ↔ _
  rw [Bool.and_eq_true, decide_eq_true_iff, holdDocuments_iff]

/-- Documents by what they hold: only single values, lists and mappings can be documents. -/
@[elab_as_elim]
theorem document_induct {motive : (v : Value) → v.isDocument = true → Prop}
    (null : motive null rfl) (bool : ∀ b, motive (bool b) rfl)
    (number : ∀ n, motive (number n) rfl) (text : ∀ s, motive (text s) rfl)
    (list : ∀ xs (h : ∀ x ∈ xs, x.isDocument = true), (∀ x hx, motive x (h x hx)) →
      motive (list xs) (isDocument_list.2 h))
    (mapping : ∀ es (hkeys : (Table.keys es).Nodup) (h : ∀ e ∈ es, e.2.isDocument = true),
      (∀ e he, motive e.2 (h e he)) → motive (mapping es) (isDocument_mapping.2 ⟨hkeys, h⟩))
    (v : Value) (h : v.isDocument = true) : motive v h := by
  induction v using induct with
  | null => exact null
  | bool b => exact bool b
  | number n => exact number n
  | text s => exact text s
  | list xs ih =>
    have hxs := isDocument_list.1 h
    exact list xs hxs fun x hx => ih x hx (hxs x hx)
  | mapping es ih =>
    obtain ⟨hkeys, hes⟩ := isDocument_mapping.1 h
    exact mapping es hkeys hes fun e he => ih e he (hes e he)
  | entity => cases h
  | builtin => cases h

@[simp] theorem sorted_list : (list xs).sorted = list (xs.map sorted) := by
  show list (sortedItems xs) = _
  induction xs with
  | nil => rfl
  | cons x xs ih => simpa [sortedItems] using ih

theorem sortedEntries_eq : sortedEntries es = es.map fun e => (e.1, e.2.sorted) := by
  induction es with
  | nil => rfl
  | cons e es ih => rw [sortedEntries, ih, List.map_cons]

@[simp] theorem sorted_mapping :
    (mapping es).sorted = mapping (Table.sorted (es.map fun e => (e.1, e.2.sorted))) := by
  show mapping (Table.sorted (sortedEntries es)) = _
  rw [sortedEntries_eq]

@[simp] theorem sorted_eq_null : v.sorted = null ↔ v = null := by
  cases v with
  | list xs => simp
  | mapping es => simp
  | _ => exact Iff.rfl

@[simp] theorem sorted_sorted (v : Value) : v.sorted.sorted = v.sorted := by
  induction v using induct with
  | list xs ih => simpa using ih
  | mapping es ih =>
    rw [sorted_mapping, sorted_mapping, Table.map_sorted, Table.sorted_sorted, List.map_map]
    congr 2
    refine List.map_congr_left fun e he => ?_
    rw [Function.comp_apply, ih e he]
  | _ => rfl

theorem isDocument_sorted (h : v.isDocument = true) : v.sorted.isDocument = true := by
  induction v, h using document_induct with
  | list xs _ ih => simpa using ih
  | mapping es hkeys _ ih =>
    rw [sorted_mapping, isDocument_mapping, Table.nodup_keys_sorted, Table.keys_mapValues]
    refine ⟨hkeys, fun e he => ?_⟩
    obtain ⟨f, hf, rfl⟩ := List.mem_map.1 (Table.mem_sorted.1 he)
    exact ih f hf
  | _ => rfl

theorem dumpItems_eq (xs : List Value) : dumpItems xs = xs.map dump := by
  induction xs with
  | nil => rfl
  | cons x xs ih => rw [dumpItems, ih, List.map_cons]

theorem dumpEntries_eq (es : List (String × Value)) :
    dumpEntries es = es.map fun e => (e.1, e.2.dump) := by
  induction es with
  | nil => rfl
  | cons e es ih => rw [dumpEntries, ih, List.map_cons]

/-- A document is written as it is. -/
theorem dump_of_isDocument (h : v.isDocument = true) : v.dump = v := by
  induction v, h using document_induct with
  | list xs _ ih =>
    rw [dump, dumpItems_eq, List.map_congr_left ih, List.map_id']
  | mapping es _ _ ih =>
    have hes : es.map (fun e => (e.1, e.2.dump)) = es.map id :=
      List.map_congr_left fun e he => by rw [ih e he]; rfl
    rw [dump, dumpEntries_eq, hes, List.map_id]
  | _ => rfl

/-! ### Numbers and nesting -/

@[simp] theorem mem_numbers_list : n ∈ (list xs).numbers ↔ ∃ x ∈ xs, n ∈ x.numbers := by
  show n ∈ numbersOfItems xs ↔ _
  induction xs with
  | nil => simp [numbersOfItems]
  | cons x xs ih => simp [numbersOfItems, ih]

@[simp] theorem mem_numbers_mapping : n ∈ (mapping es).numbers ↔ ∃ e ∈ es, n ∈ e.2.numbers := by
  show n ∈ numbersOfEntries es ↔ _
  induction es with
  | nil => simp [numbersOfEntries]
  | cons e es ih => simp [numbersOfEntries, ih]

@[simp] theorem mem_numbers_entity :
    n ∈ (entity kind slots).numbers ↔ ∃ e ∈ slots, n ∈ e.2.numbers := by
  show n ∈ numbersOfSlots slots ↔ _
  induction slots with
  | nil => simp [numbersOfSlots]
  | cons e rest ih => simp [numbersOfSlots, ih]

@[simp] theorem mem_numbers_sorted : n ∈ v.sorted.numbers ↔ n ∈ v.numbers := by
  induction v using induct with
  | list xs ih =>
    rw [sorted_list, mem_numbers_list, mem_numbers_list]
    simp only [List.mem_map, exists_exists_and_eq_and]
    exact exists_congr fun x => and_congr_right fun hx => ih x hx
  | mapping es ih =>
    rw [sorted_mapping, mem_numbers_mapping, mem_numbers_mapping]
    simp only [Table.mem_sorted, List.mem_map, exists_exists_and_eq_and]
    exact exists_congr fun e => and_congr_right fun he => ih e he
  | _ => rfl

theorem nesting_list : (list xs).nesting = nestingOfItems xs + 1 := rfl

theorem nesting_mapping : (mapping es).nesting = nestingOfEntries es + 1 := rfl

theorem nesting_entity : (entity kind slots).nesting = nestingOfSlots slots + 1 := rfl

theorem nesting_list_le : (list xs).nesting ≤ d + 1 ↔ ∀ x ∈ xs, x.nesting ≤ d := by
  rw [nesting_list, Nat.add_le_add_iff_right]
  induction xs with
  | nil => simp [nestingOfItems]
  | cons x xs ih => rw [nestingOfItems, Nat.max_le, ih, List.forall_mem_cons]

theorem nesting_mapping_le : (mapping es).nesting ≤ d + 1 ↔ ∀ e ∈ es, e.2.nesting ≤ d := by
  rw [nesting_mapping, Nat.add_le_add_iff_right]
  induction es with
  | nil => simp [nestingOfEntries]
  | cons e es ih => rw [nestingOfEntries, Nat.max_le, ih, List.forall_mem_cons]

theorem nesting_entity_le : (entity kind slots).nesting ≤ d + 1 ↔ ∀ e ∈ slots, e.2.nesting ≤ d := by
  rw [nesting_entity, Nat.add_le_add_iff_right]
  induction slots with
  | nil => simp [nestingOfSlots]
  | cons e rest ih => rw [nestingOfSlots, Nat.max_le, ih, List.forall_mem_cons]

theorem nesting_lt_list {x : Value} (h : x ∈ xs) : x.nesting < (list xs).nesting :=
  Nat.lt_succ_of_le (nesting_list_le.1 nesting_list.le x h)

theorem nesting_lt_mapping {e : String × Value} (h : e ∈ es) :
    e.2.nesting < (mapping es).nesting :=
  Nat.lt_succ_of_le (nesting_mapping_le.1 nesting_mapping.le e h)

theorem nesting_lt_entity {e : Slot × Value} (h : e ∈ slots) :
    e.2.nesting < (entity kind slots).nesting :=
  Nat.lt_succ_of_le (nesting_entity_le.1 (@nesting_entity kind slots).le e h)

theorem levels_list : (list xs).levels = levelsOfItems xs + 1 := rfl

theorem levels_mapping : (mapping es).levels = levelsOfEntries es + 1 := rfl

theorem levels_entity : (entity kind slots).levels = levelsOfSlots slots + 1 := rfl

theorem levels_list_le : (list xs).levels ≤ d + 1 ↔ ∀ x ∈ xs, x.levels ≤ d := by
  rw [levels_list, Nat.add_le_add_iff_right]
  induction xs with
  | nil => simp [levelsOfItems]
  | cons x xs ih => rw [levelsOfItems, Nat.max_le, ih, List.forall_mem_cons]

theorem levels_mapping_le : (mapping es).levels ≤ d + 1 ↔ ∀ e ∈ es, e.2.levels ≤ d := by
  rw [levels_mapping, Nat.add_le_add_iff_right]
  induction es with
  | nil => simp [levelsOfEntries]
  | cons e es ih => rw [levelsOfEntries, Nat.max_le, ih, List.forall_mem_cons]

theorem levels_entity_le : (entity kind slots).levels ≤ d + 1 ↔ ∀ e ∈ slots, e.2.levels ≤ d := by
  rw [levels_entity, Nat.add_le_add_iff_right]
  induction slots with
  | nil => simp [levelsOfSlots]
  | cons e rest ih => rw [levelsOfSlots, Nat.max_le, ih, List.forall_mem_cons]

/-- Beside its containers a value has at most one level more. -/
theorem levels_le_of_nesting (h : v.nesting ≤ d) : v.levels ≤ d + 1 := by
  induction v using induct generalizing d with
  | list xs ih =>
    cases d with
    | zero => rw [nesting_list] at h; omega
    | succ d => exact levels_list_le.2 fun x hx => ih x hx (nesting_list_le.1 h x hx)
  | mapping es ih =>
    cases d with
    | zero => rw [nesting_mapping] at h; omega
    | succ d => exact levels_mapping_le.2 fun e he => ih e he (nesting_mapping_le.1 h e he)
  | entity kind slots ih =>
    cases d with
    | zero => rw [nesting_entity] at h; omega
    | succ d => exact levels_entity_le.2 fun e he => ih e he (nesting_entity_le.1 h e he)
  | _ => exact Nat.le_add_left _ _

theorem levels_sorted_le (h : v.levels ≤ d) : v.sorted.levels ≤ d := by
  induction v using induct generalizing d with
  | list xs ih =>
    cases d with
    | zero => rw [levels_list] at h; omega
    | succ d =>
      rw [sorted_list, levels_list_le, List.forall_mem_map]
      exact fun x hx => ih x hx (levels_list_le.1 h x hx)
  | mapping es ih =>
    cases d with
    | zero => rw [levels_mapping] at h; omega
    | succ d =>
      rw [sorted_mapping, levels_mapping_le]
      intro e he
      obtain ⟨f, hf, rfl⟩ := List.mem_map.1 (Table.mem_sorted.1 he)
      exact ih f hf (levels_mapping_le.1 h f hf)
  | _ => exact h

end Value

end StoryWorld
