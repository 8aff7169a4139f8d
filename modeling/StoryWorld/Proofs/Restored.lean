import StoryWorld.Proofs.Ordered
import StoryWorld.Proofs.Reading
import StoryWorld.Proofs.Ties

/-!
What is read again of a stored value.

The stored form of a value that was read is a document, and with its keys in order it is read as
the value again: the keys of what no shape speaks of are in order now, and a whole number that a
field for a float fell back to is a float. What that is stored as differs from the first stored form
in the order of keys only. It is shown shape by shape, from the shapes inside.
-/

namespace StoryWorld

/-- What a run gave, nothing if it failed. -/
def Outcome.gotten (o : Outcome Value) : Value :=
  match o with
  | .ok v => v
  | .error _ => .null

theorem Outcome.eq_ok_gotten {o : Outcome Value} (h : ∃ v, o = .ok v) : o = .ok o.gotten := by
  obtain ⟨v, rfl⟩ := h
  rfl

/-- Whether a shape is that of single values, or says nothing about a value. -/
def Shape.isSingle : Shape → Bool
  | .list _ | .mapping _ | .optional _ | .record _ _ => false
  | _ => true

namespace Schema

mutual

/-- What a value in a field of a shape becomes if it is stored, with its keys in order, and read
again. -/
def restored : Shape → Value → Value
  | .real, v =>
    match v with
    | .number (.int n) => (Binary.ofInt? n).elim v Value.float
    | v => v.sorted
  | .list item, v =>
    match v with
    | .list xs => .list (xs.map fun x => restored item x)
    | v => v.sorted
  | .mapping item, v =>
    match v with
    | .mapping es => .mapping (Table.sorted (es.map fun e => (e.1, restored item e.2)))
    | v => v.sorted
  | .optional inner, v =>
    match v with
    | .null => .null
    | v => restored inner v
  | .record _ fields, v =>
    match v with
    | .entity k slots =>
      .entity k (restoredFields fields slots ++
        (Table.sorted ((Value.extras slots).map fun e => (e.1, e.2.sorted))).map
          fun e => (.extra e.1, e.2))
    | v => v.sorted
  | _, v => v.sorted

/-- What the declared fields of an entity become. -/
def restoredFields : Fields → List (Slot × Value) → List (Slot × Value)
  | [], _ => []
  | (f, shape) :: rest, slots =>
    (.field f.name, restored shape ((Table.get? (.field f.name) slots).getD .null)) ::
      restoredFields rest slots

end

/-- The stored form of a value, nothing if it has none. -/
def kept (room : Nat) (shape : Shape) (v : Value) : Value := (storedIn room shape v).gotten

theorem eq_kept {room : Nat} {shape : Shape} {v : Value} (h : ∃ w, storedIn room shape v = .ok w) :
    storedIn room shape v = .ok (kept room shape v) := Outcome.eq_ok_gotten h

/-- What a field of a shape holds once its entity was read: what was read from a document, or a
zero that a field for a float falls back to. -/
def Held (shape : Shape) (v : Value) : Prop :=
  (∃ d, d.isDocument = true ∧ validate shape d = .accepted v) ∨ (shape = .real ∧ v = .int 0)

/-- What a stored form of a value says about it. -/
structure Saved (room : Nat) (shape : Shape) (v saved : Value) : Prop where
  document : saved.isDocument = true
  null : saved = .null ∨ restored shape v = .null → v = .null
  numbers : ∀ n ∈ saved.numbers, n ∈ v.numbers ∨ n = .float 0.0
  nesting : ∀ d, saved.nesting ≤ d ↔ v.nesting ≤ d
  reads : validate shape saved.sorted = .accepted (restored shape v)
  again : v.nesting < room → ∃ saved', storedIn room shape (restored shape v) = .ok saved' ∧
    saved'.isDocument = true ∧ saved'.sorted = saved.sorted

theorem Saved.kept_again {room : Nat} {shape : Shape} {v saved : Value}
    (h : Saved room shape v saved) (hroom : v.nesting < room) :
    storedIn room shape (restored shape v) = .ok (kept room shape (restored shape v)) ∧
      (kept room shape (restored shape v)).isDocument = true ∧
      (kept room shape (restored shape v)).sorted = saved.sorted := by
  obtain ⟨w, hw, hd, hsorted⟩ := h.again hroom
  have hkept : kept room shape (restored shape v) = w := by rw [kept, hw]; rfl
  rw [hkept]
  exact ⟨hw, hd, hsorted⟩

/-- What is held in a field of the shape can be stored if it does not nest too deep, and what it is
stored as is read as it. -/
structure Restores (shape : Shape) : Prop where
  stores : ∀ room v, Held shape v → v.nesting < room → ∃ saved, storedIn room shape v = .ok saved
  saved : ∀ room v saved, Held shape v → storedIn room shape v = .ok saved →
    Saved room shape v saved

/-! ### What no shape speaks of -/

theorem storedFreely_ok {room : Nat} {v w : Value} (hd : v.isDocument = true) :
    storedFreely room v = .ok w ↔ v.levels ≤ room ∧ w = v := by
  rw [storedFreely, Value.dump_of_isDocument hd]
  split
  · next h => simp [not_le.2 h]
  · next h => simp [not_lt.1 h, eq_comm]

/-- A shape whose values are stored as they are. -/
structure IsFree (shape : Shape) : Prop where
  sorted : ∀ v, Held shape v → Held shape v.sorted
  document : ∀ v, Held shape v → v.isDocument = true
  stores : ∀ room v, Held shape v → storedIn room shape v = storedFreely room v
  restored : ∀ v, Held shape v → restored shape v = v.sorted
  reads : ∀ v, Held shape v → validate shape v = .accepted v

theorem IsFree.restores {shape : Shape} (h : IsFree shape) : Restores shape where
  stores room v hv hroom := by
    refine ⟨v, ?_⟩
    rw [h.stores room v hv, storedFreely_ok (h.document v hv)]
    exact ⟨(Value.levels_le_of_nesting le_rfl).trans hroom, rfl⟩
  saved room v saved hv hsaved := by
    have hd := h.document v hv
    rw [h.stores room v hv, storedFreely_ok hd] at hsaved
    obtain ⟨hlevels, rfl⟩ := hsaved
    have hsorted := Value.isDocument_sorted hd
    refine ⟨hd, ?_, fun n hn => .inl hn, fun d => Iff.rfl, ?_, fun _ => ⟨saved.sorted, ?_, hsorted,
      Value.sorted_sorted saved⟩⟩
    · rw [h.restored saved hv, Value.sorted_eq_null, or_self]
      exact id
    · rw [h.restored saved hv, h.reads _ (h.sorted saved hv)]
    · rw [h.restored saved hv, h.stores room _ (h.sorted saved hv), storedFreely_ok hsorted]
      exact ⟨Value.levels_sorted_le hlevels, rfl⟩

theorem held_iff {shape : Shape} (h : shape ≠ .real) {v : Value} :
    Held shape v ↔ ∃ d, d.isDocument = true ∧ validate shape d = .accepted v :=
  or_iff_left fun hv => h hv.1

theorem restores_any : Restores .any := by
  have hheld : ∀ v, Held .any v ↔ v.isDocument = true := by
    intro v
    rw [held_iff (by simp)]
    constructor
    · rintro ⟨d, hd, h⟩
      cases h
      exact hd
    · exact fun hd => ⟨v, hd, rfl⟩
  refine IsFree.restores ⟨fun v hv => ?_, fun v hv => (hheld v).1 hv, fun _ _ _ => rfl,
    fun _ _ => rfl, fun _ _ => rfl⟩
  exact (hheld _).2 (Value.isDocument_sorted ((hheld v).1 hv))

/-- Shapes of single values. -/
theorem restores_of_single {shape : Shape}
    (h : ∀ v, Held shape v → v.sorted = v ∧ v.isDocument = true ∧
      (∀ room, storedIn room shape v = storedFreely room v) ∧ restored shape v = v ∧
      validate shape v = .accepted v) : Restores shape :=
  IsFree.restores
    { sorted := fun v hv => by rwa [(h v hv).1]
      document := fun v hv => (h v hv).2.1
      stores := fun room v hv => (h v hv).2.2.1 room
      restored := fun v hv => by rw [(h v hv).2.2.2.1, (h v hv).1]
      reads := fun v hv => (h v hv).2.2.2.2 }

theorem restores_text : Restores .text := by
  refine restores_of_single fun v hv => ?_
  obtain ⟨d, -, h⟩ := (held_iff (by simp)).1 hv
  unfold validate at h
  split at h
  · cases h
    exact ⟨rfl, rfl, fun _ => rfl, rfl, rfl⟩
  · cases h

/-- Shapes that turn a value into one of another type, which they then take as it is. -/
theorem restores_of_map {α : Type} {shape : Shape} {turn : Value → Verdict α} {make : α → Value}
    (hreal : shape ≠ .real) (hturn : ∀ v, validate shape v = (turn v).map make)
    (h : ∀ a, (make a).sorted = make a ∧ (make a).isDocument = true ∧
      (∀ room, storedIn room shape (make a) = storedFreely room (make a)) ∧
      restored shape (make a) = make a ∧ validate shape (make a) = .accepted (make a)) :
    Restores shape := by
  refine restores_of_single fun v hv => ?_
  obtain ⟨d, -, hd⟩ := (held_iff hreal).1 hv
  rw [hturn] at hd
  obtain ⟨a, -, rfl⟩ := Verdict.map_accepted.1 hd
  exact h a

theorem restores_whole : Restores .whole :=
  restores_of_map (by simp) (fun _ => by rw [validate]) fun _ => ⟨rfl, rfl, fun _ => rfl, rfl, rfl⟩

theorem restores_number : Restores .number :=
  restores_of_map (by simp) (fun _ => by rw [validate]) fun _ => ⟨rfl, rfl, fun _ => rfl, rfl, rfl⟩

theorem restores_truth : Restores .truth :=
  restores_of_map (by simp) (fun _ => by rw [validate]) fun _ => ⟨rfl, rfl, fun _ => rfl, rfl, rfl⟩

theorem restores_choice (options : List String) : Restores (.choice options) := by
  refine restores_of_single fun v hv => ?_
  obtain ⟨d, -, h⟩ := (held_iff (by simp)).1 hv
  unfold validate at h
  split at h
  · next s =>
    split at h
    · next hs =>
      cases h
      exact ⟨rfl, rfl, fun _ => rfl, rfl, by simp only [validate, if_pos hs]⟩
    · cases h
  · cases h

theorem held_real {v : Value} (h : Held .real v) : (∃ x, v = .float x) ∨ v = .int 0 := by
  rcases h with ⟨d, -, h⟩ | ⟨-, rfl⟩
  · unfold validate at h
    obtain ⟨x, -, rfl⟩ := Verdict.map_accepted.1 h
    exact .inl ⟨x, rfl⟩
  · exact .inr rfl

/-- A field without entities inside its shape holds what a document can hold. -/
theorem isDocument_of_held {shape : Shape} (hs : shape.isSingle = true) {v : Value}
    (h : Held shape v) : v.isDocument = true := by
  by_cases hreal : shape = .real
  · subst hreal
    rcases held_real h with ⟨x, rfl⟩ | rfl <;> rfl
  obtain ⟨d, hd, hread⟩ := (held_iff hreal).1 h
  cases shape with
  | any =>
    cases hread
    exact hd
  | text =>
    unfold validate at hread
    split at hread <;> cases hread
    rfl
  | choice options =>
    unfold validate at hread
    split at hread
    · split at hread <;> cases hread
      rfl
    · cases hread
  | whole | number | truth =>
    unfold validate at hread
    obtain ⟨a, -, rfl⟩ := Verdict.map_accepted.1 hread
    rfl
  | real => exact absurd rfl hreal
  | list | mapping | optional | record => cases hs

theorem ofInt?_zero : Binary.ofInt? 0 = some 0.0 := by decide +kernel

theorem restored_zero : restored .real (.int 0) = .float 0.0 := by
  show (Binary.ofInt? 0).elim (.number (.int 0)) Value.float = _
  rw [ofInt?_zero]
  rfl

theorem storedIn_zero (room : Nat) : storedIn room .real (.int 0) = .ok (.float 0.0) := by
  rw [storedIn, Value.int, storedReal, ofInt?_zero]
  rfl

/-- A field for floats holds floats and the zero that it falls back to, which is stored as one. -/
theorem restores_real : Restores .real where
  stores room v hv hroom := by
    rcases held_real hv with ⟨x, rfl⟩ | rfl
    · exact ⟨.float x, (storedFreely_ok rfl).2 ⟨hroom, rfl⟩⟩
    · exact ⟨_, storedIn_zero room⟩
  saved room v saved hv hsaved := by
    have hfloat : ∀ x, storedIn room .real (.float x) = storedFreely room (.float x) := fun _ => rfl
    rcases held_real hv with ⟨x, rfl⟩ | rfl
    · rw [hfloat, storedFreely_ok rfl] at hsaved
      obtain ⟨hlevels, rfl⟩ := hsaved
      exact ⟨rfl, by rintro (⟨⟨⟩⟩ | ⟨⟨⟩⟩), fun n hn => .inl hn, fun d => Iff.rfl, rfl,
        fun _ => ⟨_, (storedFreely_ok rfl).2 ⟨hlevels, rfl⟩, rfl, rfl⟩⟩
    · rw [storedIn_zero] at hsaved
      cases hsaved
      refine ⟨rfl, by rw [restored_zero]; rintro (⟨⟨⟩⟩ | ⟨⟨⟩⟩),
        fun n hn => .inr (by simpa [Value.numbers, Value.float] using hn), fun d => Iff.rfl, ?_,
        fun hroom => ⟨.float 0.0, ?_, rfl, rfl⟩⟩
      · rw [restored_zero]
        rfl
      · rw [restored_zero, hfloat]
        exact (storedFreely_ok rfl).2 ⟨hroom, rfl⟩

/-! ### Lists and mappings -/

theorem storedItems_ok {store : Value → Outcome Value} {xs ys : List Value} :
    storedItems store xs = .ok ys ↔
      (∀ x ∈ xs, ∃ y, store x = .ok y) ∧ ys = xs.map fun x => (store x).gotten := by
  induction xs generalizing ys with
  | nil => simp [storedItems, eq_comm]
  | cons x xs ih =>
    rw [storedItems, Outcome.bind_ok, List.forall_mem_cons, List.map_cons]
    constructor
    · rintro ⟨y, hy, h⟩
      obtain ⟨zs, hzs, h⟩ := Outcome.bind_ok.1 h
      cases h
      obtain ⟨hall, rfl⟩ := ih.1 hzs
      exact ⟨⟨⟨y, hy⟩, hall⟩, by rw [hy]; rfl⟩
    · rintro ⟨⟨hx, hall⟩, rfl⟩
      refine ⟨_, Outcome.eq_ok_gotten hx, ?_⟩
      rw [ih.2 ⟨hall, rfl⟩]
      rfl

theorem storedEntries_ok {store : Value → Outcome Value} {es fs : List (String × Value)} :
    storedEntries store es = .ok fs ↔
      (∀ e ∈ es, ∃ v, store e.2 = .ok v) ∧ fs = es.map fun e => (e.1, (store e.2).gotten) := by
  induction es generalizing fs with
  | nil => simp [storedEntries, eq_comm]
  | cons e es ih =>
    rw [storedEntries, Outcome.bind_ok, List.forall_mem_cons, List.map_cons]
    constructor
    · rintro ⟨v, hv, h⟩
      obtain ⟨gs, hgs, h⟩ := Outcome.bind_ok.1 h
      cases h
      obtain ⟨hall, rfl⟩ := ih.1 hgs
      exact ⟨⟨⟨v, hv⟩, hall⟩, by rw [hv]; rfl⟩
    · rintro ⟨⟨he, hall⟩, rfl⟩
      refine ⟨_, Outcome.eq_ok_gotten he, ?_⟩
      rw [ih.2 ⟨hall, rfl⟩]
      rfl

theorem storedIn_list_ok {room : Nat} {item : Shape} {xs : List Value} {w : Value} :
    storedIn room (.list item) (.list xs) = .ok w ↔
      (∀ x ∈ xs, ∃ y, storedIn room item x = .ok y) ∧ w = .list (xs.map (kept room item)) := by
  show (storedItems _ xs).map Value.list = .ok w ↔ _
  rw [Outcome.map_ok]
  simp only [storedItems_ok]
  constructor
  · rintro ⟨ys, ⟨hall, rfl⟩, rfl⟩
    exact ⟨hall, rfl⟩
  · rintro ⟨hall, rfl⟩
    exact ⟨_, ⟨hall, rfl⟩, rfl⟩

theorem storedIn_mapping_ok {room : Nat} {item : Shape} {es : List (String × Value)} {w : Value} :
    storedIn room (.mapping item) (.mapping es) = .ok w ↔
      (∀ e ∈ es, ∃ y, storedIn room item e.2 = .ok y) ∧
        w = .mapping (es.map fun e => (e.1, kept room item e.2)) := by
  show (storedEntries _ es).map Value.mapping = .ok w ↔ _
  rw [Outcome.map_ok]
  simp only [storedEntries_ok]
  constructor
  · rintro ⟨ys, ⟨hall, rfl⟩, rfl⟩
    exact ⟨hall, rfl⟩
  · rintro ⟨hall, rfl⟩
    exact ⟨_, ⟨hall, rfl⟩, rfl⟩

theorem validate_list {item : Shape} {f g : Value → Value} {xs : List Value}
    (h : ∀ x ∈ xs, validate item (f x) = .accepted (g x)) :
    validate (.list item) (.list (xs.map f)) = .accepted (.list (xs.map g)) := by
  have hitems : ∀ position, readItems (fun x => validate item x) position (xs.map f) =
      .accepted (xs.map g) := by
    induction xs with
    | nil => exact fun _ => rfl
    | cons x xs ih =>
      intro position
      rw [List.forall_mem_cons] at h
      rw [List.map_cons, readItems, h.1, ih h.2]
      rfl
  show (readItems _ 0 (xs.map f)).map Value.list = _
  rw [hitems]
  rfl

theorem validate_mapping {item : Shape} {f g : Value → Value} {es : List (String × Value)}
    (h : ∀ e ∈ es, validate item (f e.2) = .accepted (g e.2)) :
    validate (.mapping item) (.mapping (es.map fun e => (e.1, f e.2))) =
      .accepted (.mapping (es.map fun e => (e.1, g e.2))) := by
  have hentries : readEntries (fun x => validate item x) (es.map fun e => (e.1, f e.2)) =
      .accepted (es.map fun e => (e.1, g e.2)) := by
    induction es with
    | nil => rfl
    | cons e es ih =>
      rw [List.forall_mem_cons] at h
      rw [List.map_cons, readEntries, h.1, ih h.2]
      rfl
  show (readEntries _ (es.map _)).map Value.mapping = _
  rw [hentries]
  rfl

theorem keys_readEntries {read : Value → Verdict Value} {es fs : List (String × Value)}
    (h : readEntries read es = .accepted fs) : Table.keys fs = Table.keys es := by
  induction es generalizing fs with
  | nil =>
    cases h
    rfl
  | cons e es ih =>
    obtain ⟨v, vs, -, hvs, rfl⟩ := Verdict.both_accepted.1 h
    have hkeys := ih hvs
    simp only [Table.keys, List.map_cons] at hkeys ⊢
    rw [hkeys]

theorem held_list {item : Shape} {v : Value} (h : Held (.list item) v) :
    ∃ ys, v = .list ys ∧ ∀ y ∈ ys, Held item y := by
  obtain ⟨d, hd, h⟩ := (held_iff (by simp)).1 h
  obtain ⟨xs, ys, rfl, rfl, hys⟩ := list_accepted h
  refine ⟨ys, rfl, fun y hy => ?_⟩
  obtain ⟨x, hx, hread⟩ := hys y hy
  exact .inl ⟨x, Value.isDocument_list.1 hd x hx, hread⟩

theorem held_mapping {item : Shape} {v : Value} (h : Held (.mapping item) v) :
    ∃ fs, v = .mapping fs ∧ (Table.keys fs).Nodup ∧ ∀ f ∈ fs, Held item f.2 := by
  obtain ⟨d, hd, h⟩ := (held_iff (by simp)).1 h
  unfold validate at h
  split at h
  · obtain ⟨fs, hfs, rfl⟩ := Verdict.map_accepted.1 h
    rw [Value.isDocument_mapping] at hd
    refine ⟨fs, rfl, by rw [keys_readEntries hfs]; exact hd.1, fun f hf => ?_⟩
    obtain ⟨e, he, hread⟩ := readEntries_accepted hfs f hf
    exact .inl ⟨e.2, hd.2 e he, hread⟩
  · cases h

theorem Restores.list {item : Shape} (h : Restores item) : Restores (.list item) where
  stores room v hv hroom := by
    obtain ⟨ys, rfl, hys⟩ := held_list hv
    refine ⟨_, storedIn_list_ok.2 ⟨fun y hy => ?_, rfl⟩⟩
    exact h.stores room y (hys y hy) ((Value.nesting_lt_list hy).trans hroom)
  saved room v saved hv hsaved := by
    obtain ⟨ys, rfl, hys⟩ := held_list hv
    obtain ⟨hok, rfl⟩ := storedIn_list_ok.1 hsaved
    have hsaved : ∀ y ∈ ys, Saved room item y (kept room item y) := fun y hy =>
      h.saved room y _ (hys y hy) (eq_kept (hok y hy))
    refine ⟨?_, by rintro (⟨⟨⟩⟩ | ⟨⟨⟩⟩), fun n hn => ?_, fun d => ?_, ?_, fun hroom => ?_⟩
    · rw [Value.isDocument_list, List.forall_mem_map]
      exact fun y hy => (hsaved y hy).document
    · obtain ⟨w, hw, hn⟩ := Value.mem_numbers_list.1 hn
      obtain ⟨y, hy, rfl⟩ := List.mem_map.1 hw
      exact ((hsaved y hy).numbers n hn).imp_left fun hn => Value.mem_numbers_list.2 ⟨y, hy, hn⟩
    · cases d with
      | zero => simp [Value.nesting]
      | succ d =>
        rw [Value.nesting_list_le, Value.nesting_list_le, List.forall_mem_map]
        exact forall₂_congr fun y hy => (hsaved y hy).nesting d
    · rw [Value.sorted_list, List.map_map]
      exact validate_list fun y hy => (hsaved y hy).reads
    · have hagain := fun y hy => (hsaved y hy).kept_again ((Value.nesting_lt_list hy).trans hroom)
      refine ⟨.list ((ys.map (restored item)).map (kept room item)), ?_, ?_, ?_⟩
      · refine storedIn_list_ok.2 ⟨?_, rfl⟩
        rw [List.forall_mem_map]
        exact fun y hy => ⟨_, (hagain y hy).1⟩
      · rw [Value.isDocument_list, List.forall_mem_map, List.forall_mem_map]
        exact fun y hy => (hagain y hy).2.1
      · rw [Value.sorted_list, Value.sorted_list, List.map_map, List.map_map, List.map_map]
        congr 1
        exact List.map_congr_left fun y hy => (hagain y hy).2.2

theorem restored_mapping {item : Shape} {es : List (String × Value)} :
    restored (.mapping item) (.mapping es) =
      .mapping ((Table.sorted es).map fun e => (e.1, restored item e.2)) := by
  rw [Table.map_sorted (restored item)]
  rfl

theorem sorted_mapValues {f : Value → Value} {es : List (String × Value)} :
    (Value.mapping (es.map fun e => (e.1, f e.2))).sorted =
      .mapping ((Table.sorted es).map fun e => (e.1, (f e.2).sorted)) := by
  rw [Value.sorted_mapping, List.map_map, Table.map_sorted fun x => (f x).sorted]
  rfl

theorem Restores.mapping {item : Shape} (h : Restores item) : Restores (.mapping item) where
  stores room v hv hroom := by
    obtain ⟨es, rfl, -, hes⟩ := held_mapping hv
    refine ⟨_, storedIn_mapping_ok.2 ⟨fun e he => ?_, rfl⟩⟩
    exact h.stores room e.2 (hes e he) ((Value.nesting_lt_mapping he).trans hroom)
  saved room v saved hv hsaved := by
    obtain ⟨es, rfl, hkeys, hes⟩ := held_mapping hv
    obtain ⟨hok, rfl⟩ := storedIn_mapping_ok.1 hsaved
    have hsaved : ∀ e ∈ es, Saved room item e.2 (kept room item e.2) := fun e he =>
      h.saved room e.2 _ (hes e he) (eq_kept (hok e he))
    refine ⟨?_, by rintro (⟨⟨⟩⟩ | ⟨⟨⟩⟩), fun n hn => ?_, fun d => ?_, ?_, fun hroom => ?_⟩
    · rw [Value.isDocument_mapping, Table.keys_mapValues, List.forall_mem_map]
      exact ⟨hkeys, fun e he => (hsaved e he).document⟩
    · obtain ⟨w, hw, hn⟩ := Value.mem_numbers_mapping.1 hn
      obtain ⟨e, he, rfl⟩ := List.mem_map.1 hw
      exact ((hsaved e he).numbers n hn).imp_left fun hn =>
        Value.mem_numbers_mapping.2 ⟨e, he, hn⟩
    · cases d with
      | zero => simp [Value.nesting]
      | succ d =>
        rw [Value.nesting_mapping_le, Value.nesting_mapping_le, List.forall_mem_map]
        exact forall₂_congr fun e he => (hsaved e he).nesting d
    · rw [sorted_mapValues (f := kept room item), restored_mapping]
      exact validate_mapping (f := fun x => (kept room item x).sorted) (g := restored item)
        fun e he => (hsaved e (Table.mem_sorted.1 he)).reads
    · have hagain := fun e he =>
        (hsaved e he).kept_again ((Value.nesting_lt_mapping he).trans hroom)
      rw [restored_mapping]
      refine ⟨_, storedIn_mapping_ok.2 ⟨?_, rfl⟩, ?_, ?_⟩
      · rw [List.forall_mem_map]
        exact fun e he => ⟨_, (hagain e (Table.mem_sorted.1 he)).1⟩
      · rw [Value.isDocument_mapping, Table.keys_mapValues, Table.keys_mapValues,
          Table.nodup_keys_sorted, List.forall_mem_map, List.forall_mem_map]
        exact ⟨hkeys, fun e he => (hagain e (Table.mem_sorted.1 he)).2.1⟩
      · have hsorted : ∀ e ∈ Table.sorted es,
            (kept room item (restored item e.2)).sorted = (kept room item e.2).sorted :=
          fun e he => (hagain e (Table.mem_sorted.1 he)).2.2
        rw [sorted_mapValues (f := kept room item), sorted_mapValues (f := kept room item),
          Table.map_sorted (restored item), Table.sorted_sorted, ← Table.map_sorted, List.map_map]
        congr 1
        exact List.map_congr_left fun e he => congrArg (Prod.mk e.1) (hsorted e he)

/-! ### What may be null -/

section Optional

variable {inner : Shape} {v : Value} (h : v ≠ .null)
include h

theorem storedIn_optional (room : Nat) :
    storedIn room (.optional inner) v = storedIn room inner v := by
  cases v <;> first | rfl | exact absurd rfl h

theorem restored_optional : restored (.optional inner) v = restored inner v := by
  cases v <;> first | rfl | exact absurd rfl h

theorem validate_optional : validate (.optional inner) v = validate inner v := by
  cases v <;> first | rfl | exact absurd rfl h

theorem held_optional (hv : Held (.optional inner) v) : Held inner v := by
  obtain ⟨d, hd, hread⟩ := (held_iff (by simp)).1 hv
  by_cases hnull : d = .null
  · subst hnull
    cases hread
    exact absurd rfl h
  · rw [validate_optional hnull] at hread
    exact .inl ⟨d, hd, hread⟩

end Optional

theorem Restores.optional {inner : Shape} (h : Restores inner) : Restores (.optional inner) where
  stores room v hv hroom := by
    by_cases hnull : v = .null
    · subst hnull
      exact ⟨.null, rfl⟩
    · rw [storedIn_optional hnull]
      exact h.stores room v (held_optional hnull hv) hroom
  saved room v saved hv hsaved := by
    by_cases hnull : v = .null
    · subst hnull
      cases hsaved
      exact ⟨rfl, fun _ => rfl, fun n hn => .inl hn, fun d => Iff.rfl, rfl,
        fun _ => ⟨.null, rfl, rfl, rfl⟩⟩
    · rw [storedIn_optional hnull] at hsaved
      have hinner := h.saved room v saved (held_optional hnull hv) hsaved
      have hsorted : saved.sorted ≠ .null := fun hs =>
        hnull (hinner.null (.inl (Value.sorted_eq_null.1 hs)))
      have hrestored : restored inner v ≠ .null := fun hr => hnull (hinner.null (.inr hr))
      refine ⟨hinner.document, ?_, hinner.numbers, hinner.nesting, ?_, ?_⟩
      · rw [restored_optional hnull]
        exact hinner.null
      · rw [restored_optional hnull, validate_optional hsorted]
        exact hinner.reads
      · rw [restored_optional hnull, storedIn_optional hrestored]
        exact hinner.again

end Schema

end StoryWorld
