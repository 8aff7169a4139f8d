import StoryWorld.Delta.Amend
import StoryWorld.Expression.Evaluate
import StoryWorld.Proofs.Equality

/-!
How strict the comparison of documents is.

Two documents are the same if they have one shape, with the same truth values and texts at the same
places and numbers of one rank. The comparison of conditions and removals tells just the same
documents equal, unless a truth value of one stands at a place where the other has a number: below
the top it takes the truth value for the number 0 or 1.
-/

namespace StoryWorld

namespace Value

/-- Two documents are the same: a truth value only as itself, and numbers of one rank. -/
inductive Same : Value → Value → Prop
  | null : Same null null
  | bool (b : Bool) : Same (bool b) (bool b)
  | number {m n : Number} (hm : m.IsDefined) (hn : n.IsDefined) (h : m.rank = n.rank) :
    Same (number m) (number n)
  | text (s : String) : Same (text s) (text s)
  | list {xs ys : List Value} (hlength : xs.length = ys.length)
    (h : ∀ (i : Nat) (x y : Value), xs[i]? = some x → ys[i]? = some y → Same x y) :
    Same (list xs) (list ys)
  | mapping {es fs : List (String × Value)} (hkeys : (Table.keys es).Perm (Table.keys fs))
    (h : ∀ (k : String) (x y : Value), Table.get? k es = some x → Table.get? k fs = some y →
      Same x y) : Same (mapping es) (mapping fs)

mutual

/-- Whether a truth value of one stands where the other has a number. -/
def crossed : Value → Value → Bool
  | bool _, number _ => true
  | number _, bool _ => true
  | list xs, list ys => crossedItems xs ys
  | mapping es, mapping fs => crossedEntries es fs
  | _, _ => false

/-- Whether two items at one position are crossed. -/
def crossedItems : List Value → List Value → Bool
  | x :: xs, y :: ys => crossed x y || crossedItems xs ys
  | _, _ => false

/-- Whether two values under one key are crossed. -/
def crossedEntries : List (String × Value) → List (String × Value) → Bool
  | [], _ => false
  | (k, x) :: es, fs =>
    (match Table.get? k fs with
      | some y => crossed x y
      | none => false) || crossedEntries es fs

end

/-- Whether that is so below the top. -/
def crossedBelow : Value → Value → Bool
  | list xs, list ys => crossedItems xs ys
  | mapping es, mapping fs => crossedEntries es fs
  | _, _ => false

variable {left right : Value} {xs ys : List Value} {es fs : List (String × Value)}

theorem crossed_list : (list xs).crossed (list ys) = false ↔
    ∀ (i : Nat) (x y : Value), xs[i]? = some x → ys[i]? = some y → x.crossed y = false := by
  rw [crossed]
  induction xs generalizing ys with
  | nil => simp [crossedItems]
  | cons x xs ih =>
    cases ys with
    | nil => simp [crossedItems]
    | cons y ys =>
      rw [crossedItems, Bool.or_eq_false_iff, ih]
      refine ⟨fun h i a b ha hb => ?_, fun h => ⟨h 0 x y rfl rfl, fun i a b => h (i + 1) a b⟩⟩
      cases i with
      | zero =>
        obtain rfl : x = a := Option.some.inj ha
        obtain rfl : y = b := Option.some.inj hb
        exact h.1
      | succ i => exact h.2 i a b ha hb

theorem crossed_mapping : (mapping es).crossed (mapping fs) = false ↔
    ∀ e ∈ es, ∀ y, Table.get? e.1 fs = some y → e.2.crossed y = false := by
  rw [crossed]
  induction es with
  | nil => simp [crossedEntries]
  | cons e es ih =>
    rw [crossedEntries, Bool.or_eq_false_iff, ih, List.forall_mem_cons]
    refine and_congr_left' ?_
    cases Table.get? e.1 fs <;> simp

theorem same_list : Same (list xs) (list ys) ↔ xs.length = ys.length ∧
    ∀ (i : Nat) (x y : Value), xs[i]? = some x → ys[i]? = some y → Same x y :=
  ⟨fun h => by cases h with | list hlength h => exact ⟨hlength, h⟩, fun h => .list h.1 h.2⟩

theorem same_mapping : Same (mapping es) (mapping fs) ↔ (Table.keys es).Perm (Table.keys fs) ∧
    ∀ (k : String) (x y : Value), Table.get? k es = some x → Table.get? k fs = some y → Same x y :=
  ⟨fun h => by cases h with | mapping hkeys h => exact ⟨hkeys, h⟩, fun h => .mapping h.1 h.2⟩

theorem same_number {m n : Number} : Same (number m) (number n) ↔ m.equal n = true := by
  rw [Number.equal_iff_rank]
  exact ⟨fun h => by cases h with | number hm hn h => exact ⟨hm, hn, h⟩,
    fun h => .number h.1 h.2.1 h.2.2⟩

/-- Documents are the same just if they are equal and nowhere crossed. -/
theorem same_iff_equal (hleft : left.isDocument = true) (hright : right.isDocument = true) :
    Same left right ↔ left.equal right = true ∧ left.crossed right = false := by
  induction left using induct generalizing right with
  | null =>
    cases right with
    | null => simp [equal, crossed, Same.null]
    | _ => exact ⟨fun h => (by cases h), fun h => by simp [equal] at h⟩
  | bool b =>
    cases right with
    | bool c =>
      refine ⟨fun h => by cases h; simp [equal, crossed], fun h => ?_⟩
      obtain rfl : b = c := by simpa [equal] using h.1
      exact .bool b
    | _ => exact ⟨fun h => (by cases h), fun h => by simp [equal, crossed] at h⟩
  | number m =>
    cases right with
    | number n => simp [same_number, equal, crossed]
    | _ => exact ⟨fun h => (by cases h), fun h => by simp [equal, crossed] at h⟩
  | text s =>
    cases right with
    | text t =>
      refine ⟨fun h => by cases h; simp [equal, crossed], fun h => ?_⟩
      obtain rfl : s = t := by simpa [equal] using h.1
      exact .text s
    | _ => exact ⟨fun h => (by cases h), fun h => by simp [equal] at h⟩
  | list xs ih =>
    cases right with
    | list ys =>
      rw [isDocument_list] at hleft hright
      have hitem : ∀ (i : Nat) (x y : Value), xs[i]? = some x → ys[i]? = some y →
          (Same x y ↔ x.equal y = true ∧ x.crossed y = false) := fun i x y hx hy =>
        ih x (List.mem_of_getElem? hx) (hleft x (List.mem_of_getElem? hx))
          (hright y (List.mem_of_getElem? hy))
      rw [same_list, equal_list_iff, crossed_list]
      constructor
      · rintro ⟨hlength, h⟩
        exact ⟨⟨hlength, fun i x y hx hy => ((hitem i x y hx hy).1 (h i x y hx hy)).1⟩,
          fun i x y hx hy => ((hitem i x y hx hy).1 (h i x y hx hy)).2⟩
      · rintro ⟨⟨hlength, hequal⟩, hcrossed⟩
        exact ⟨hlength, fun i x y hx hy =>
          (hitem i x y hx hy).2 ⟨hequal i x y hx hy, hcrossed i x y hx hy⟩⟩
    | _ => exact ⟨fun h => (by cases h), fun h => by simp [equal] at h⟩
  | mapping es ih =>
    cases right with
    | mapping fs =>
      rw [isDocument_mapping] at hleft hright
      have hentry : ∀ e ∈ es, ∀ y, Table.get? e.1 fs = some y →
          (Same e.2 y ↔ e.2.equal y = true ∧ e.2.crossed y = false) := fun e he y hy =>
        ih e he (hleft.2 e he) (hright.2 _ (Table.mem_of_get? hy))
      rw [same_mapping, equal_mapping_iff, crossed_mapping]
      constructor
      · rintro ⟨hkeys, h⟩
        have hsame : ∀ e ∈ es, ∀ y, Table.get? e.1 fs = some y → Same e.2 y :=
          fun e he y hy => h e.1 e.2 y ((Table.get?_eq_some_iff hleft.1).2 he) hy
        refine ⟨⟨?_, fun e he => ?_⟩, fun e he y hy =>
          ((hentry e he y hy).1 (hsame e he y hy)).2⟩
        · simpa [Table.keys] using hkeys.length_eq
        · have hmem : e.1 ∈ Table.keys fs := hkeys.mem_iff.1 (List.mem_map_of_mem he)
          obtain ⟨y, hy⟩ := Table.mem_keys_iff.1 hmem
          exact ⟨y, hy, ((hentry e he y hy).1 (hsame e he y hy)).1⟩
      · rintro ⟨hmatches, hcrossed⟩
        refine ⟨hmatches.keys_perm hleft.1, fun k x y hx hy => ?_⟩
        have he : (k, x) ∈ es := Table.mem_of_get? hx
        obtain ⟨z, hz, hequal⟩ := hmatches.under _ he
        obtain rfl : y = z := Option.some.inj (hy.symm.trans hz)
        exact (hentry _ he y hy).2 ⟨hequal, hcrossed _ he y hy⟩
    | _ => exact ⟨fun h => (by cases h), fun h => by simp [equal] at h⟩
  | entity => cases hleft
  | builtin => cases hleft

/-- Documents are compared as they are. -/
theorem strictEqual_document (h : left.isDocument = true) :
    left.strictEqual right = .ok (left.isBool == right.isBool && left.equal right) := by
  refine strictEqual_eq_of_not_takenFor ?_
  rintro ⟨kind, slots, es, rfl, -⟩
  cases h

/-- The strict comparison tells the same documents equal, and else only such as are crossed below
the top. -/
theorem same_iff_strictEqual (hleft : left.isDocument = true) (hright : right.isDocument = true) :
    Same left right ↔ left.strictEqual right = .ok true ∧ left.crossedBelow right = false := by
  rw [same_iff_equal hleft hright, strictEqual_document hleft, Except.ok.injEq]
  cases left <;> cases right <;> simp [equal, crossed, crossedBelow, isBool]

theorem strictEqual_iff_same (hleft : left.isDocument = true) (hright : right.isDocument = true)
    (hcrossed : left.crossedBelow right = false) :
    left.strictEqual right = .ok true ↔ Same left right := by
  rw [same_iff_strictEqual hleft hright, and_iff_left hcrossed]

/-- A search whose tests all give an answer finds the first item that passes. -/
theorem findFrom_of_answers {test : Value → Outcome Bool} {p : Value → Bool} :
    ∀ {xs : List Value} (n : Nat), (∀ x ∈ xs, test x = .ok (p x)) →
      findFrom test n xs = .ok ((xs.findIdx? p).map (· + n))
  | [], n, _ => rfl
  | x :: xs, n, h => by
    rw [List.forall_mem_cons] at h
    rw [findFrom, h.1, Outcome.ok_bind, List.findIdx?_cons]
    cases p x with
    | true => simp [pure, Except.pure]
    | false =>
      simp only [Bool.false_eq_true, if_false]
      rw [findFrom_of_answers (n + 1) h.2, Option.map_map]
      congr 2
      funext i
      simp only [Function.comp]
      omega

/-- A list has an item just if one of its items is the same. -/
theorem contains_iff_same {wanted : Value} (hwanted : wanted.isDocument = true)
    (hxs : ∀ x ∈ xs, x.isDocument = true ∧ x.crossedBelow wanted = false) :
    Expr.contains (list xs) wanted = .ok true ↔ ∃ x ∈ xs, Same x wanted := by
  have hanswers : ∀ x ∈ xs, x.strictEqual wanted =
      .ok (x.isBool == wanted.isBool && x.equal wanted) :=
    fun x hx => strictEqual_document (hxs x hx).1
  rw [Expr.contains, findFrom_of_answers 0 hanswers, Except.map, Except.ok.injEq, Option.isSome_map,
    List.findIdx?_isSome, List.any_eq_true]
  refine exists_congr fun x => and_congr_right fun hx => ?_
  rw [← strictEqual_iff_same (hxs x hx).1 hwanted (hxs x hx).2, hanswers x hx, Except.ok.injEq]

end Value

/-! ### Removals -/

/-- A list without the first of its items that have a property; the whole list, if none has it. -/
def TakenOut (p : Value → Prop) (xs ys : List Value) : Prop :=
  (∃ (i : Nat) (x : Value), xs[i]? = some x ∧ p x ∧
    (∀ j < i, ∀ y, xs[j]? = some y → ¬p y) ∧ ys = xs.eraseIdx i) ∨
  ((∀ x ∈ xs, ¬p x) ∧ ys = xs)

/-- The first item that passes a test is taken out by its position. -/
theorem takenOut_of_findIdx? {p : Value → Prop} {q : Value → Bool} {xs : List Value}
    (h : ∀ x ∈ xs, (q x = true ↔ p x)) : TakenOut p xs (match xs.findIdx? q with
      | some i => xs.eraseIdx i
      | none => xs) := by
  cases hfind : xs.findIdx? q with
  | none =>
    rw [List.findIdx?_eq_none_iff] at hfind
    refine .inr ⟨fun x hx hp => ?_, rfl⟩
    have hnot := hfind x hx
    rw [(h x hx).2 hp] at hnot
    cases hnot
  | some i =>
    obtain ⟨hi, hq, hbefore⟩ := List.findIdx?_eq_some_iff_getElem.1 hfind
    refine .inl ⟨i, xs[i], List.getElem?_eq_getElem hi, (h _ (List.getElem_mem hi)).1 hq, ?_, rfl⟩
    intro j hj y hy hp
    obtain ⟨hjlt, rfl⟩ := List.getElem?_eq_some_iff.1 hy
    exact hbefore j hj ((h _ (List.getElem_mem hjlt)).2 hp)

namespace Delta

variable {story : Story} {place : Place} {delta : Delta} {pattern : Option (String × Value)}
  {xs : List Value}

/-- What a removal compares of an item: the item itself, or what it has under the key of the
pattern. -/
def compared? (pattern : Option (String × Value)) (item : Value) : Option Value :=
  match pattern with
  | none => some item
  | some (key, _) => itemField? item key

/-- What it is compared with. -/
def wanted (delta : Delta) (pattern : Option (String × Value)) : Value :=
  match pattern with
  | none => delta.value
  | some (_, value) => value

theorem isSought_eq (item : Value) : isSought delta pattern item =
    match compared? pattern item with
    | some v => v.strictEqual (wanted delta pattern)
    | none => .ok false := by
  cases pattern <;> rfl

/-- A removal whose comparisons all give an answer takes out the first item that passes. -/
theorem removed_of_answers {p : Value → Prop} {q : Value → Bool}
    (hpattern : pattern? delta = .ok pattern) (hread : place.read story = .ok (.list xs))
    (htest : ∀ x ∈ xs, isSought delta pattern x = .ok (q x)) (hq : ∀ x ∈ xs, (q x = true ↔ p x)) :
    ∃ ys, removed story place delta = .ok ys ∧ TakenOut p xs ys := by
  refine ⟨_, ?_, takenOut_of_findIdx? hq⟩
  rw [removed, requireList, hread]
  simp only [Outcome.ok_bind, pure, Except.pure, hpattern, Value.findFrom_of_answers 0 htest]
  cases xs.findIdx? q <;> rfl

/-- A removal takes out the first item of which it finds the same as it looks for. -/
theorem removed_same (hpattern : pattern? delta = .ok pattern)
    (hwanted : (wanted delta pattern).isDocument = true) (hread : place.read story = .ok (.list xs))
    (hxs : ∀ x ∈ xs, ∀ v ∈ compared? pattern x,
      v.isDocument = true ∧ v.crossedBelow (wanted delta pattern) = false) :
    ∃ ys, removed story place delta = .ok ys ∧
      TakenOut (fun x => ∃ v ∈ compared? pattern x, Value.Same v (wanted delta pattern)) xs ys := by
  refine removed_of_answers (q := fun x => (compared? pattern x).any fun v =>
    v.isBool == (wanted delta pattern).isBool && v.equal (wanted delta pattern))
    hpattern hread (fun x hx => ?_) fun x hx => ?_
  · rw [isSought_eq]
    split
    · next v hv =>
      rw [Value.strictEqual_document (hxs x hx v hv).1, hv, Option.any_some]
    · next hnone => rw [hnone, Option.any_none]
  · cases hv : compared? pattern x with
    | none => simp
    | some v =>
      obtain ⟨hdocument, hcrossed⟩ := hxs x hx v hv
      have hsame := Value.strictEqual_iff_same hdocument hwanted hcrossed
      rw [Value.strictEqual_document hdocument, Except.ok.injEq] at hsame
      simpa using hsame

end Delta

/-- Documents are matched by what they are, in a condition, in a search of a list and in a removal:
just the same ones are, as long as no truth value stands below the top where the other document has
a number. -/
theorem matched_iff_same {wanted : Value} (hwanted : wanted.isDocument = true) :
    (∀ v : Value, v.isDocument = true →
      (Value.Same v wanted ↔ v.strictEqual wanted = .ok true ∧ v.crossedBelow wanted = false)) ∧
    (∀ v : Value, v.isDocument = true → v.crossedBelow wanted = false →
      (Expr.compareValues .eq v wanted = .ok true ↔ Value.Same v wanted)) ∧
    (∀ xs : List Value, (∀ x ∈ xs, x.isDocument = true ∧ x.crossedBelow wanted = false) →
      (Expr.contains (.list xs) wanted = .ok true ↔ ∃ x ∈ xs, Value.Same x wanted)) ∧
    ∀ (story : Story) (place : Place) (delta : Delta) (pattern : Option (String × Value))
      (xs : List Value), Delta.pattern? delta = .ok pattern → delta.wanted pattern = wanted →
        place.read story = .ok (.list xs) →
        (∀ x ∈ xs, ∀ v ∈ Delta.compared? pattern x,
          v.isDocument = true ∧ v.crossedBelow wanted = false) →
        ∃ ys, delta.removed story place = .ok ys ∧
          TakenOut (fun x => ∃ v ∈ Delta.compared? pattern x, Value.Same v wanted) xs ys := by
  refine ⟨fun v hv => Value.same_iff_strictEqual hv hwanted, fun v hv hcrossed => ?_,
    fun xs hxs => Value.contains_iff_same hwanted hxs, ?_⟩
  · have heq : Expr.compareValues .eq v wanted = v.strictEqual wanted := by
      rw [Value.strictEqual_document hv]
      simp only [Expr.compareValues, Expr.relation?, Value.strictEqual_document hv,
        Outcome.ok_bind, if_true]
      rfl
    rw [heq]
    exact Value.strictEqual_iff_same hv hwanted hcrossed
  · intro story place delta pattern xs hpattern hsought hread hxs
    subst hsought
    exact Delta.removed_same hpattern hwanted hread hxs

/-- A condition on two truth values and a number. -/
def flagged (n : Number) : Value :=
  .mapping [("flags", .list [.bool true, .bool false]), ("weight", .number n)]

theorem matched_iff_same_flagged : (flagged (.int 1)).isDocument = true ∧
    Value.Same (flagged (.float 1)) (flagged (.int 1)) ∧
      Expr.contains (.list [.bool true, flagged (.float 1)]) (flagged (.int 1)) = .ok true := by
  have hwanted : (flagged (.int 1)).isDocument = true := by decide +kernel
  have hmatched := matched_iff_same hwanted
  have hsame : Value.Same (flagged (.float 1)) (flagged (.int 1)) :=
    (hmatched.1 _ (by decide +kernel)).2 ⟨by decide +kernel, by decide +kernel⟩
  refine ⟨hwanted, hsame, (hmatched.2.2.1 _ (by decide +kernel)).2 ⟨_, ?_, hsame⟩⟩
  exact List.mem_cons_of_mem _ List.mem_cons_self

/-- Inside a list a truth value is taken for a number. -/
theorem matched_truth_number :
    (Value.list [.bool true]).strictEqual (.list [.int 1]) = .ok true ∧
      ¬Value.Same (.list [.bool true]) (.list [.int 1]) := by
  refine ⟨by decide +kernel, fun hsame => ?_⟩
  have hcrossed := ((Value.same_iff_equal (by decide) (by decide)).1 hsame).2
  exact absurd hcrossed (by decide)

end StoryWorld
