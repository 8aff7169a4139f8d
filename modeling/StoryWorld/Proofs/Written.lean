import StoryWorld.Proofs.Layouts
import StoryWorld.Proofs.Ordered

/-!
The canonical form of a document is read as the document.

What is written is a spelling of the document with its keys in order, so the reader gives just that
back. And a document can be written just if its numbers can and it does not nest too deep.
-/

namespace StoryWorld

/-- A number that a stored document can hold: a whole one of 64 bits, or a finite float. -/
def Number.isStorable : Number → Bool
  | int n => Json.fitsStored n
  | float x => x.isFinite

namespace Json

/-! ### Texts -/

/-- The characters that have to be numbered are. -/
theorem hex4?_control {n : Nat} (h : n < 0x20) :
    ∃ a b c d, Text.hexDigits 4 n = [a, b, c, d] ∧ hex4? a b c d = some n := by
  interval_cases n <;> exact ⟨_, _, _, _, rfl, rfl⟩

theorem spellsChar_writeChar (c : Char) : SpellsChar c (writeChar c) := by
  unfold writeChar
  split
  any_goals exact .escape rfl
  next hq hb _ _ _ _ _ =>
    split
    · next hlow =>
      obtain ⟨x, y, z, w, hdigits, hhex⟩ := hex4?_control hlow
      have hspell := SpellsChar.numbered hhex (.inl (by omega))
      rw [hdigits]
      rwa [Char.ofNat_toNat] at hspell
    · next hhigh => exact .plain hq hb (not_lt.1 hhigh)

theorem spellsText_writeText (s : String) : SpellsText s (writeText s.toList) := by
  have hchars : ∀ cs : List Char, SpellsChars cs (cs.flatMap writeChar) := by
    intro cs
    induction cs with
    | nil => exact .nil
    | cons c cs ih => exact .cons (spellsChar_writeChar c) ih
  have hspell := SpellsText.intro (hchars s.toList)
  rwa [String.ofList_toList] at hspell

/-! ### Numbers -/

theorem toList_toString (n : Int) : (toString n).toList =
    (if decide (n < 0) then ['-'] else []) ++ Nat.toDigits 10 n.natAbs := by
  cases n with
  | ofNat n => exact Nat.toList_repr
  | negSucc n =>
    show ("-" ++ Nat.repr (n + 1)).toList = _
    rw [String.toList_append, Nat.toList_repr, decide_eq_true (Int.negSucc_lt_zero n)]
    rfl

/-- A whole number is written with no needless zero at its start. -/
theorem length_of_head_toDigits {n : Nat} (h : (Nat.toDigits 10 n).head? = some '0') :
    (Nat.toDigits 10 n).length = 1 := by
  rcases Nat.eq_zero_or_pos n with rfl | hpos
  · rfl
  · exact absurd h (head?_toDigits hpos)

theorem spells_writeNumber? {n : Number} (h : n.isStorable = true) :
    ∃ s m, writeNumber? n = some s ∧ SpellsNumeral m s ∧ m.toNumber? stored = some n := by
  cases n with
  | int n =>
    have hfits : fitsStored n = true := h
    have hspell := @SpellsNumeral.intro (decide (n < 0)) _ _ _ _ _ (digits_toDigits n.natAbs)
      length_of_head_toDigits .none .none
    refine ⟨_, _, if_pos hfits, by rw [toList_toString]; simpa using hspell, ?_⟩
    have hwhole : (if decide (n < 0) = true then -(natOf (Nat.toDigits 10 n.natAbs) : Int)
        else natOf (Nat.toDigits 10 n.natAbs)) = n := by
      rw [natOf_toDigits]
      by_cases hn : n < 0
      · rw [decide_eq_true hn, if_pos rfl]
        omega
      · rw [decide_eq_false hn, if_neg Bool.false_ne_true]
        omega
    simp only [Numeral.toNumber?, hwhole, stored, hfits, Option.isNone_none, Bool.and_self, if_true]
  | float x =>
    have hfinite : x.isFinite = true := h
    rw [Binary.isFinite_eq] at hfinite
    obtain ⟨v, hv⟩ := Option.isSome_iff_exists.1 hfinite
    obtain ⟨m, hspell, hread⟩ := @Layout.spells_finite .compact _ _ hv stored
    exact ⟨_, m, by rw [writeNumber?, hv], hspell, hread⟩

/-! ### Values -/

/-- Whether a value has a written form. -/
def writable (depth : Nat) (v : Value) : Bool := (write? depth v).isSome

/-- The written form of a value, nothing if it has none. -/
def partOf (depth : Nat) (v : Value) : List Char := (write? depth v).getD []

theorem write?_eq (depth : Nat) (v : Value) :
    write? depth v = if writable depth v then some (partOf depth v) else none := by
  rw [writable, partOf]
  cases write? depth v <;> rfl

theorem writeItems?_eq (depth : Nat) (xs : List Value) : writeItems? depth xs =
    if xs.all (writable depth) then some (xs.map (partOf depth)) else none := by
  induction xs with
  | nil => rfl
  | cons x xs ih =>
    rw [writeItems?, write?_eq, ih, List.all_cons]
    cases writable depth x <;> cases xs.all (writable depth) <;> rfl

theorem writeEntries?_eq (depth : Nat) (es : List (String × Value)) : writeEntries? depth es =
    if es.all (fun e => writable depth e.2) then some (es.map fun e => (e.1, partOf depth e.2))
    else none := by
  induction es with
  | nil => rfl
  | cons e es ih =>
    rw [writeEntries?, write?_eq, ih, List.all_cons]
    cases writable depth e.2 <;> cases es.all (fun e => writable depth e.2) <;> rfl

/-- At depth zero no list or mapping is written. -/
theorem write?_list_zero (xs : List Value) : write? 0 (.list xs) = none := rfl

theorem write?_mapping_zero (es : List (String × Value)) : write? 0 (.mapping es) = none := rfl

theorem write?_list (depth : Nat) (xs : List Value) : write? (depth + 1) (.list xs) =
    if xs.all (writable depth) then
      some ('[' :: (Text.join [','] (xs.map (partOf depth)) ++ [']']))
    else none := by
  show (writeItems? depth xs).map (fun parts => '[' :: (Text.join [','] parts ++ [']'])) = _
  rw [writeItems?_eq]
  split <;> rfl

/-- A mapping is written with its keys in order. -/
theorem write?_mapping (depth : Nat) (es : List (String × Value)) :
    write? (depth + 1) (.mapping es) =
      if es.all (fun e => writable depth e.2) then
        some ('\x7b' :: (Text.join [',']
          ((Table.sorted (es.map fun e => (e.1, partOf depth e.2))).map writeMember) ++ ['\x7d']))
      else none := by
  show (writeEntries? depth es).map (fun parts =>
    '\x7b' :: (Text.join [','] ((parts.mergeSort keyLe).map writeMember) ++ ['\x7d'])) = _
  rw [writeEntries?_eq]
  split <;> rfl

section Changing

variable {f : Value → Value}

/-- What is written of a list are its items. -/
theorem write?_list_map {xs : List Value}
    (h : ∀ x ∈ xs, ∀ depth, write? depth (f x) = write? depth x) (depth : Nat) :
    write? depth (.list (xs.map f)) = write? depth (.list xs) := by
  cases depth with
  | zero => rw [write?_list_zero, write?_list_zero]
  | succ depth =>
    have hall : (xs.map f).all (writable depth) = xs.all (writable depth) := by
      rw [Bool.eq_iff_iff, List.all_eq_true, List.all_eq_true, List.forall_mem_map]
      exact forall₂_congr fun x hx => by rw [writable, h x hx, writable]
    have hmap : (xs.map f).map (partOf depth) = xs.map (partOf depth) := by
      rw [List.map_map]
      exact List.map_congr_left fun x hx => by rw [Function.comp_apply, partOf, h x hx, partOf]
    rw [write?_list, write?_list, hall, hmap]

/-- What is written of a mapping are its entries. -/
theorem write?_mapping_map {es : List (String × Value)}
    (h : ∀ e ∈ es, ∀ depth, write? depth (f e.2) = write? depth e.2) (depth : Nat) :
    write? depth (.mapping (es.map fun e => (e.1, f e.2))) = write? depth (.mapping es) := by
  cases depth with
  | zero => rw [write?_mapping_zero, write?_mapping_zero]
  | succ depth =>
    have hall : (es.map fun e => (e.1, f e.2)).all (fun e => writable depth e.2) =
        es.all fun e => writable depth e.2 := by
      rw [Bool.eq_iff_iff, List.all_eq_true, List.all_eq_true, List.forall_mem_map]
      exact forall₂_congr fun e he => by rw [writable, h e he, writable]
    have hmap : (es.map fun e => (e.1, f e.2)).map (fun e => (e.1, partOf depth e.2)) =
        es.map fun e => (e.1, partOf depth e.2) := by
      rw [List.map_map]
      refine List.map_congr_left fun e he => ?_
      simp only [Function.comp_apply, partOf, h e he]
    rw [write?_mapping, write?_mapping, hall, hmap]

/-- The order of its entries makes no difference. -/
theorem write?_mapping_sorted (depth : Nat) (es : List (String × Value)) :
    write? depth (.mapping (Table.sorted es)) = write? depth (.mapping es) := by
  cases depth with
  | zero => rw [write?_mapping_zero, write?_mapping_zero]
  | succ depth =>
    rw [write?_mapping, write?_mapping, (Table.sorted_perm es).all_eq,
      Table.map_sorted (partOf depth), Table.sorted_sorted]

end Changing

/-- Bringing the keys in order makes no difference to what is written. -/
theorem write?_sorted (depth : Nat) (v : Value) : write? depth v.sorted = write? depth v := by
  induction v using Value.induct generalizing depth with
  | list xs ih => rw [Value.sorted_list, write?_list_map fun x hx depth => ih x hx depth]
  | mapping es ih =>
    rw [Value.sorted_mapping, write?_mapping_sorted, write?_mapping_map fun e he depth =>
      ih e he depth]
  | _ => rfl

/-- A list can be written just if its items can, one level deeper. -/
theorem writable_list {depth : Nat} {xs : List Value} :
    writable depth (.list xs) = true ↔ ∃ d, depth = d + 1 ∧ ∀ x ∈ xs, writable d x = true := by
  cases depth with
  | zero => simp [writable, write?_list_zero]
  | succ depth =>
    rw [writable, write?_list, Option.isSome_ite, List.all_eq_true]
    simp

/-- A mapping can be written just if what its keys lead to can. -/
theorem writable_mapping {depth : Nat} {es : List (String × Value)} :
    writable depth (.mapping es) = true ↔ ∃ d, depth = d + 1 ∧ ∀ e ∈ es, writable d e.2 = true := by
  cases depth with
  | zero => simp [writable, write?_mapping_zero]
  | succ depth =>
    rw [writable, write?_mapping, Option.isSome_ite, List.all_eq_true]
    simp

/-- A document whose numbers can be stored is written just if it does not nest too deep. -/
theorem writable_iff {v : Value} (hd : v.isDocument = true)
    (hn : ∀ n ∈ v.numbers, n.isStorable = true) {depth : Nat} :
    writable depth v = true ↔ v.nesting ≤ depth := by
  induction v using Value.induct generalizing depth with
  | number n =>
    obtain ⟨s, -, hs, -⟩ := spells_writeNumber? (hn n List.mem_cons_self)
    rw [writable, write?, hs]
    simp [Value.nesting]
  | list xs ih =>
    rw [Value.isDocument_list] at hd
    have hitems : ∀ d, (∀ x ∈ xs, writable d x = true) ↔ ∀ x ∈ xs, x.nesting ≤ d := fun d =>
      forall₂_congr fun x hx => ih x hx (hd x hx) fun n hmem =>
        hn n (Value.mem_numbers_list.2 ⟨x, hx, hmem⟩)
    rw [writable_list]
    simp only [hitems, ← Value.nesting_list_le]
    cases depth <;> simp [Value.nesting]
  | mapping es ih =>
    rw [Value.isDocument_mapping] at hd
    have hentries : ∀ d, (∀ e ∈ es, writable d e.2 = true) ↔ ∀ e ∈ es, e.2.nesting ≤ d := fun d =>
      forall₂_congr fun e he => ih e he (hd.2 e he) fun n hmem =>
        hn n (Value.mem_numbers_mapping.2 ⟨e, he, hmem⟩)
    rw [writable_mapping]
    simp only [hentries, ← Value.nesting_mapping_le]
    cases depth <;> simp [Value.nesting]
  | bool b => cases b <;> simp [writable, write?, Value.nesting]
  | entity => cases hd
  | builtin => cases hd
  | _ => simp [writable, write?, Value.nesting]

/-! ### What is written is read -/

theorem padded_value {depth : Nat} {v : Value} {s : List Char}
    (h : Spells stored depth (.value v) s) : Spells stored depth (.padded v) s := by
  have hpadded := @Spells.padded _ _ _ _ [] [] (by simp [Blank]) h (by simp [Blank])
  simpa using hpadded

theorem spells_items {depth : Nat} {text : Value → List Char} {xs : List Value} (hne : xs ≠ [])
    (h : ∀ x ∈ xs, Spells stored depth (.value x) (text x)) :
    Spells stored depth (.items xs) (Text.join [','] (xs.map text)) := by
  induction xs with
  | nil => exact absurd rfl hne
  | cons x xs ih =>
    rw [List.forall_mem_cons] at h
    cases xs with
    | nil => exact .item (padded_value h.1)
    | cons y ys =>
      have hitems := Spells.items (padded_value h.1) (ih (by simp) h.2)
      simpa [Text.join] using hitems

theorem spells_members {depth : Nat} {text : Value → List Char} {es : List (String × Value)}
    (hne : es ≠ []) (h : ∀ e ∈ es, Spells stored depth (.value e.2) (text e.2)) :
    Spells stored depth (.members es)
      (Text.join [','] (es.map fun e => writeMember (e.1, text e.2))) := by
  have hmember : ∀ e ∈ es, Spells stored depth (.member e) (writeMember (e.1, text e.2)) := by
    rintro ⟨k, v⟩ he
    have hspell := @Spells.member _ _ _ _ _ _ [] [] (by simp [Blank]) (spellsText_writeText k)
      (by simp [Blank]) (padded_value (h _ he))
    simpa [writeMember] using hspell
  clear h
  induction es with
  | nil => exact absurd rfl hne
  | cons e es ih =>
    rw [List.forall_mem_cons] at hmember
    cases es with
    | nil => exact .single hmember.1
    | cons f fs =>
      have hmembers := Spells.members hmember.1 (ih (by simp) hmember.2)
      simpa [Text.join] using hmembers

variable {v : Value} {xs : List Value} {es : List (String × Value)}

theorem sorted_item (h : (Value.list xs).sorted = .list xs) {x : Value} (hx : x ∈ xs) :
    x.sorted = x := by
  rw [Value.sorted_list, Value.list.injEq] at h
  rw [← h] at hx
  obtain ⟨y, -, rfl⟩ := List.mem_map.1 hx
  exact Value.sorted_sorted y

theorem sorted_entry (h : (Value.mapping es).sorted = .mapping es) {e : String × Value}
    (he : e ∈ es) : e.2.sorted = e.2 := by
  rw [Value.sorted_mapping, Value.mapping.injEq] at h
  rw [← h, Table.mem_sorted] at he
  obtain ⟨f, -, rfl⟩ := List.mem_map.1 he
  exact Value.sorted_sorted f.2

theorem sorted_entries (h : (Value.mapping es).sorted = .mapping es) : Table.sorted es = es := by
  rw [Value.sorted_mapping, Value.mapping.injEq] at h
  rw [← h, Table.sorted_sorted]

/-- The written form of a document with its keys in order spells it. -/
theorem spells_partOf {v : Value} (hs : v.sorted = v) (hd : v.isDocument = true)
    (hn : ∀ n ∈ v.numbers, n.isStorable = true) {depth room : Nat} (hdepth : depth ≤ room)
    (hw : writable depth v = true) : Spells stored room (.value v) (partOf depth v) := by
  -- The reader allows at least as many levels as the writer, at every level.
  induction v using Value.induct generalizing depth room with
  | null => exact .null
  | bool b => cases b <;> first | exact .true | exact .false
  | number n =>
    obtain ⟨s, m, hs, hspell, hread⟩ := spells_writeNumber? (hn n List.mem_cons_self)
    rw [partOf, write?, hs]
    exact .number hspell hread
  | text s => exact .text (spellsText_writeText s)
  | list xs ih =>
    cases depth with
    | zero => simp [writable, write?_list_zero] at hw
    | succ depth =>
      obtain ⟨room, rfl⟩ : ∃ r, room = r + 1 := ⟨room - 1, by omega⟩
      rw [writable, write?_list, Option.isSome_ite, List.all_eq_true] at hw
      have hitems : ∀ x ∈ xs, Spells stored room (.value x) (partOf depth x) := by
        intro x hx
        refine ih x hx (sorted_item hs hx) (Value.isDocument_list.1 hd x hx) ?_ (by omega) (hw x hx)
        exact fun n hmem => hn n (Value.mem_numbers_list.2 ⟨x, hx, hmem⟩)
      rw [partOf, write?_list, if_pos (List.all_eq_true.2 hw), Option.getD_some]
      rcases eq_or_ne xs [] with rfl | hne
      · exact .nil (by simp [Blank, Text.join])
      · exact .list (spells_items hne hitems)
  | mapping es ih =>
    cases depth with
    | zero => simp [writable, write?_mapping_zero] at hw
    | succ depth =>
      obtain ⟨room, rfl⟩ : ∃ r, room = r + 1 := ⟨room - 1, by omega⟩
      rw [writable, write?_mapping, Option.isSome_ite, List.all_eq_true] at hw
      have hentries : ∀ e ∈ es, Spells stored room (.value e.2) (partOf depth e.2) := by
        intro e he
        refine ih e he (sorted_entry hs he) ((Value.isDocument_mapping.1 hd).2 e he) ?_
          (by omega) (hw e he)
        exact fun n hmem => hn n (Value.mem_numbers_mapping.2 ⟨e, he, hmem⟩)
      rw [partOf, write?_mapping, if_pos (List.all_eq_true.2 hw), Option.getD_some,
        ← Table.map_sorted, sorted_entries hs, List.map_map]
      rcases eq_or_ne es [] with rfl | hne
      · exact .empty (by simp [Blank, Text.join])
      · have hspell := Spells.mapping (spells_members hne hentries)
        rwa [Table.ofPairs_eq (Value.isDocument_mapping.1 hd).1] at hspell
  | entity => cases hd
  | builtin => cases hd

/-- The canonical text of a document is read as the document with its keys in order. -/
theorem read?_canonical? {v : Value} {s : List Char} (hd : v.isDocument = true)
    (hn : ∀ n ∈ v.numbers, n.isStorable = true) (h : canonical? v = some s) :
    read? stored s = some v.sorted := by
  rw [canonical?, ← write?_sorted] at h
  have hspell := spells_partOf (Value.sorted_sorted v) (Value.isDocument_sorted hd)
    (fun n hmem => hn n (Value.mem_numbers_sorted.1 hmem))
    (show writeDepth ≤ stored.maxDepth by decide) (by rw [writable, h]; rfl)
  rw [partOf, h, Option.getD_some] at hspell
  exact read?_iff.2 (padded_value hspell)

end Json

end StoryWorld
