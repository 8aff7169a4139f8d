import StoryWorld.Proofs.Atomic
import StoryWorld.Proofs.Rounding
import StoryWorld.Proofs.Standing

/-!
Numbers too large for a float, and where reading a document meets one.

Only the rule on balances asks for the size of a number, so a document can be read as any shape
without that rule, however large its numbers are. Read as a shape with it, a document is too large
only if it holds a whole number that no float comes near to, or a text that says one. A number that
fits a float has a numeral that is short enough to be shown.
-/

namespace StoryWorld

namespace Verdict

variable {α β γ : Type}

@[simp] theorem map_eq_overflow {f : α → β} {v : Verdict α} :
    v.map f = overflow ↔ v = overflow := by
  cases v <;> simp [map]

@[simp] theorem under_eq_overflow {place : String} {v : Verdict α} :
    v.under place = overflow ↔ v = overflow := by
  cases v <;> simp [under]

@[simp] theorem marked_eq_overflow {mark : String} {v : Verdict α} :
    v.marked mark = overflow ↔ v = overflow := by
  cases v <;> simp [marked]

theorem both_eq_overflow {f : α → β → γ} {v : Verdict α} {w : Verdict β} :
    v.both f w = overflow ↔ v = overflow ∨ w = overflow := by
  cases v <;> cases w <;> simp [both]

theorem andThen_eq_overflow {v : Verdict α} {f : α → Verdict β} :
    v.andThen f = overflow ↔ v = overflow ∨ ∃ a, v = accepted a ∧ f a = overflow := by
  cases v <;> simp [andThen]

end Verdict

/-! ### Numbers that fit a float -/

namespace Binary

/-- A quotient is near to some float just if its size rounds to less than infinity. -/
theorem isSome_ofQuotient? (negative : Bool) (num den : Nat) :
    (ofQuotient? negative num den).isSome = true ↔ bitsOfQuotient num den < infinityBits := by
  unfold ofQuotient?
  simp only
  split <;> simp_all

theorem isSome_ofInt? (n : Int) :
    (ofInt? n).isSome = true ↔ bitsOfQuotient n.natAbs 1 < infinityBits :=
  isSome_ofQuotient? _ _ _

theorem bitsOfQuotient_one_mono {m n : Nat} (h : m ≤ n) :
    bitsOfQuotient m 1 ≤ bitsOfQuotient n 1 := by
  refine bitsOfQuotient_mono one_pos one_pos ?_
  simpa using h

end Binary

namespace Number

/-- Whether a number fits a float: a whole number can be too large. -/
def fits (n : Number) : Bool := n.toFloat?.isSome

theorem fits_iff {n : Number} : n.fits = true ↔ n.finite? ≠ none := by
  rw [fits, finite?, Option.isSome_iff_ne_none, ne_eq, ne_eq, Option.map_eq_none_iff]

@[simp] theorem fits_float (x : Float) : (float x).fits = true := rfl

theorem fits_int {n : Int} :
    (int n).fits = true ↔ Binary.bitsOfQuotient n.natAbs 1 < Binary.infinityBits :=
  Binary.isSome_ofInt? n

/-- A whole number of 64 bits fits. -/
theorem fits_of_natAbs_le {n : Int} (h : n.natAbs ≤ 2 ^ 63) : (int n).fits = true := by
  have hlimit : Binary.bitsOfQuotient (2 ^ 63) 1 < Binary.infinityBits := by decide +kernel
  exact fits_int.2 ((Binary.bitsOfQuotient_one_mono h).trans_lt hlimit)

/-- Two numbers come to a third just if both are whole or both fit floats. -/
theorem combine?_isSome {whole : Int → Int → Int} {real : Float → Float → Float} {a b : Number} :
    (combine? whole real a b).isSome = true ↔
      (∃ m n, a = int m ∧ b = int n) ∨ a.fits = true ∧ b.fits = true := by
  have hfloat : ∀ {a b : Number}, (do
      let x ← a.toFloat?
      let y ← b.toFloat?
      return float (real x y) : Option Number).isSome = true ↔ a.fits = true ∧ b.fits = true := by
    intro a b
    unfold fits
    cases a.toFloat? <;> cases b.toFloat? <;> simp
  cases a with
  | int m =>
    cases b with
    | int n => simp [combine?]
    | float y => simpa [combine?] using @hfloat (int m) (float y)
  | float x => simpa [combine?] using @hfloat (float x) b

theorem natAbs_lt_of_fits {n : Int} (h : (int n).fits = true) : n.natAbs < 2 ^ 1024 := by
  have hlimit : Binary.infinityBits ≤ Binary.bitsOfQuotient (2 ^ 1024) 1 := by decide +kernel
  by_contra hle
  have hmono := Binary.bitsOfQuotient_one_mono (not_lt.1 hle)
  exact absurd (fits_int.1 h) (not_lt.2 (hlimit.trans hmono))

end Number

namespace Value

/-- A number that fits a float can be shown. -/
theorem holdsLongNumeral_of_fits {n : Number} (h : n.fits = true) :
    (number n).holdsLongNumeral = false := by
  cases n with
  | float x => rfl
  | int n =>
    have hlt : n.natAbs < 10 ^ Text.numeralLimit :=
      (Number.natAbs_lt_of_fits h).trans (by decide +kernel)
    have hlength : (toString n.natAbs).length = (Nat.toDigits 10 n.natAbs).length := by
      rw [Nat.toString_eq_ofList_toDigits, String.length_ofList]
    rw [holdsLongNumeral, hlength, decide_eq_false_iff_not, not_lt]
    exact (Nat.length_toDigits_le_iff (by decide) (by decide)).2 hlt

/-! ### Values without numbers that are too large -/

mutual

/-- Whether each number in a document fits a float, as does each number that a text in it says. -/
def isModerate : Value → Bool
  | number n => n.fits
  | text s =>
    match Numeral.whole s.toList with
    | .value n => (Number.int n).fits
    | _ => true
  | list xs => areModerate xs
  | mapping es => holdModerate es
  | _ => true

/-- Whether the numbers in the items of a list fit. -/
def areModerate : List Value → Bool
  | [] => true
  | x :: xs => isModerate x && areModerate xs

/-- Whether the numbers in the values of a mapping fit. -/
def holdModerate : List (String × Value) → Bool
  | [] => true
  | (_, x) :: es => isModerate x && holdModerate es

end

theorem isModerate_list {xs : List Value} :
    (list xs).isModerate = true ↔ ∀ x ∈ xs, x.isModerate = true := by
  rw [isModerate]
  induction xs with
  | nil => simp [areModerate]
  | cons x xs ih => simp [areModerate, ih]

theorem isModerate_mapping {es : List (String × Value)} :
    (mapping es).isModerate = true ↔ ∀ e ∈ es, e.2.isModerate = true := by
  rw [isModerate]
  induction es with
  | nil => simp [holdModerate]
  | cons e es ih => simp [holdModerate, ih]

/-- What holds no number that is too large can be shown. -/
theorem holdsLongNumeral_of_isModerate (v : Value) (hd : v.isDocument = true)
    (h : v.isModerate = true) : v.holdsLongNumeral = false := by
  induction v using induct with
  | number n => exact holdsLongNumeral_of_fits (by rwa [isModerate] at h)
  | list xs ih =>
    rw [isModerate_list] at h
    rw [isDocument_list] at hd
    rw [holdsLongNumeral]
    induction xs with
    | nil => rfl
    | cons x xs ih' =>
      rw [List.forall_mem_cons] at h hd ih
      rw [itemsHoldLongNumeral, ih.1 hd.1 h.1, ih' ih.2 hd.2 h.2, Bool.or_false]
  | mapping es ih =>
    rw [isModerate_mapping] at h
    have hes := (isDocument_mapping.1 hd).2
    clear hd
    rw [holdsLongNumeral]
    induction es with
    | nil => rfl
    | cons e es ih' =>
      rw [List.forall_mem_cons] at h hes ih
      rw [entriesHoldLongNumeral, ih.1 hes.1 h.1, ih' ih.2 h.2 hes.2, Bool.or_false]
  | entity kind slots => cases hd
  | builtin b => cases hd
  | _ => rfl

end Value

/-! ### Shapes that ask for no balance -/

namespace Shape

mutual

/-- Whether no field in a shape has the rule on balances. -/
def unbalanced : Shape → Bool
  | list item => item.unbalanced
  | mapping item => item.unbalanced
  | optional inner => inner.unbalanced
  | record _ fields => unbalancedFields fields
  | _ => true

/-- Whether none of the fields, or of the fields inside them, has it. -/
def unbalancedFields : List (Field × Shape) → Bool
  | [] => true
  | (f, shape) :: rest => f.rule != .balance && shape.unbalanced && unbalancedFields rest

end

end Shape

/-- Outside the assets no entity of a story holds a balance. -/
theorem Kind.unbalanced_shape {kind : Kind} (h : kind.elsewhere = true) :
    kind.shape.unbalanced = true := by
  revert h
  cases kind <;> decide +kernel

/-! ### Numbers that were read -/

namespace Numeral

theorem natAbs_of_wholeOfFloat {x : Float} {n : Int} (h : wholeOfFloat x = .accepted n) :
    n.natAbs ≤ 2 ^ 63 := by
  unfold wholeOfFloat at h
  split at h
  · cases h
  · simp only at h
    split at h
    · cases h
    · split at h
      · rename_i hsize
        obtain rfl := Verdict.accepted.inj h
        rw [Binary.twoTo_eq] at hsize
        omega
      · cases h

/-- A whole number that is read from a value without numbers that are too large fits. -/
theorem fits_of_toWhole {v : Value} {n : Int} (hv : v.isModerate = true)
    (h : toWhole v = .accepted n) : (Number.int n).fits = true := by
  unfold toWhole at h
  split at h
  · obtain rfl := Verdict.accepted.inj h
    rwa [Value.isModerate] at hv
  · obtain rfl := Verdict.accepted.inj h
    refine Number.fits_of_natAbs_le ?_
    split <;> decide
  · exact Number.fits_of_natAbs_le (natAbs_of_wholeOfFloat h)
  · split at h
    · rename_i m hm
      obtain rfl := Verdict.accepted.inj h
      rwa [Value.isModerate, hm] at hv
    · cases h
    · cases h
  · cases h

theorem wholeOfFloat_ne_overflow (x : Float) : wholeOfFloat x ≠ .overflow := by
  unfold wholeOfFloat
  split
  · simp [Verdict.reject]
  · simp only
    (repeat' split) <;> simp [Verdict.reject]

theorem toWhole_ne_overflow (v : Value) : toWhole v ≠ .overflow := by
  unfold toWhole
  split
  case h_3 x => exact wholeOfFloat_ne_overflow x
  all_goals (repeat' split) <;> simp [Verdict.reject]

theorem toReal_ne_overflow (v : Value) : toReal v ≠ .overflow := by
  unfold toReal
  repeat' split
  all_goals simp [Verdict.reject]

theorem toTruth_ne_overflow (v : Value) : toTruth v ≠ .overflow := by
  have hwhole : ∀ n, truthOfWhole n ≠ .overflow := fun n => by
    unfold truthOfWhole
    repeat' split
    all_goals simp [Verdict.reject]
  have hfloat : ∀ x, truthOfFloat x ≠ .overflow := fun x => by
    unfold truthOfFloat
    split
    · exact hwhole _
    · simp [Verdict.reject]
  unfold toTruth
  repeat' split
  all_goals first
    | exact hwhole _
    | exact hfloat _
    | simp [Verdict.reject]

theorem toNumber_ne_overflow (v : Value) : toNumber v ≠ .overflow := by
  unfold toNumber
  split
  · simp
  · split
    · simp
    · split
      · simp
      · rw [ne_eq, Verdict.both_eq_overflow, Verdict.marked_eq_overflow, Verdict.marked_eq_overflow]
        exact not_or.2 ⟨toWhole_ne_overflow v, toReal_ne_overflow v⟩

theorem fits_of_toNumber {v : Value} {n : Number} (hv : v.isModerate = true)
    (h : toNumber v = .accepted n) : n.fits = true := by
  unfold toNumber at h
  split at h
  · obtain rfl := Verdict.accepted.inj h
    rwa [Value.isModerate] at hv
  · split at h
    · rename_i m hm
      obtain rfl := Verdict.accepted.inj h
      exact fits_of_toWhole hv hm
    · split at h
      · obtain rfl := Verdict.accepted.inj h
        rfl
      · obtain ⟨_, x, -, -, rfl⟩ := Verdict.both_accepted.1 h
        rfl

end Numeral

namespace Schema

open Value

variable {v : Value} {n : Number}

/-- A number that a value without numbers that are too large is read as fits. -/
theorem fits_of_validate (hv : v.isModerate = true) : ∀ shape : Shape,
    validate shape v = .accepted (.number n) → n.fits = true
  | .any, h => by
    obtain rfl := Verdict.accepted.inj h
    rwa [isModerate] at hv
  | .whole, h => by
    unfold validate at h
    obtain ⟨m, hm, heq⟩ := Verdict.map_accepted.1 h
    obtain rfl := Value.number.inj heq
    exact Numeral.fits_of_toWhole hv hm
  | .real, h => by
    unfold validate at h
    obtain ⟨x, -, heq⟩ := Verdict.map_accepted.1 h
    obtain rfl := Value.number.inj heq
    rfl
  | .number, h => by
    unfold validate at h
    obtain ⟨m, hm, heq⟩ := Verdict.map_accepted.1 h
    obtain rfl := Value.number.inj heq
    exact Numeral.fits_of_toNumber hv hm
  | .optional inner, h => by
    unfold validate at h
    split at h
    · cases h
    · exact fits_of_validate hv inner h
  | .text, h | .truth, h | .choice _, h | .list _, h | .mapping _, h | .record _ _, h =>
    nomatch takesNumber_of_validate _ h

/-! ### Documents that are not too large -/

theorem isModerate_prepare {kind : Kind} {es : List (String × Value)}
    (h : ∀ e ∈ es, e.2.isModerate = true) : ∀ e ∈ prepare kind es, e.2.isModerate = true :=
  forall_prepare (p := fun v => v.isModerate = true)
    (fun _ _ hv => isModerate_mapping.1 hv _ List.mem_cons_self) h

theorem isModerate_prepareRule {rule : Rule} (hv : v.isModerate = true) :
    (rule.prepare v).isModerate = true := by
  unfold Rule.prepare
  split
  · rw [isModerate_list] at hv ⊢
    intro y hy
    obtain ⟨x, hx, rfl⟩ := List.mem_map.1 hy
    have hmoderate := hv x hx
    unfold Rule.wrapExpression
    split
    · exact isModerate_mapping.2 (List.forall_mem_singleton.2 hmoderate)
    · exact hmoderate
  · exact hv

end Schema

/-- A number can be checked as a balance just if it fits. -/
theorem Rule.fits_iff_checkBalance {n : Number} :
    n.fits = true ↔ checkBalance n ≠ .overflow := by
  rw [Number.fits_iff, checkBalance]
  split
  · simp_all
  · rename_i finite hfinite
    refine iff_of_true (by simp [hfinite]) ?_
    split <;> simp [Verdict.reject]

namespace Schema

open Value

variable {v : Value} {n : Number}

/-- Only a balance can be too large for its rule. -/
theorem check_ne_overflow {rule : Rule} (h : rule ≠ .balance ∨ ∀ n, v = .number n → n.fits = true) :
    rule.check v ≠ .overflow := by
  unfold Rule.check
  split
  case h_3 n =>
    exact Rule.fits_iff_checkBalance.1 (h.resolve_left (fun hne => hne rfl) n rfl)
  all_goals
    try simp only
    (repeat' split) <;> simp [Verdict.reject]

theorem checkWhole_ne_overflow (kind : Kind) (slots : List (Slot × Value)) :
    checkWhole kind slots ≠ .overflow := by
  unfold checkWhole
  repeat' split
  all_goals simp [Verdict.reject]

theorem unknownSlots_ne_overflow (kind : Kind) (rest : List (String × Value)) :
    unknownSlots kind rest ≠ .overflow := by
  unfold unknownSlots
  repeat' split
  all_goals simp

theorem readItems_ne_overflow {read : Value → Verdict Value} : ∀ {position : Nat} {xs : List Value},
    (∀ x ∈ xs, read x ≠ .overflow) → readItems read position xs ≠ .overflow
  | _, [], _ => by simp [readItems]
  | position, x :: xs, h => by
    rw [List.forall_mem_cons] at h
    rw [readItems, ne_eq, Verdict.both_eq_overflow, Verdict.under_eq_overflow, not_or]
    exact ⟨h.1, readItems_ne_overflow h.2⟩

theorem readEntries_ne_overflow {read : Value → Verdict Value} : ∀ {es : List (String × Value)},
    (∀ e ∈ es, read e.2 ≠ .overflow) → readEntries read es ≠ .overflow
  | [], _ => by simp [readEntries]
  | e :: es, h => by
    rw [List.forall_mem_cons] at h
    rw [readEntries, ne_eq, Verdict.both_eq_overflow, Verdict.under_eq_overflow, not_or]
    exact ⟨h.1, readEntries_ne_overflow h.2⟩

mutual

/-- A document is never too large for a shape without balances, and one without numbers that are too
large never for any shape. -/
theorem validate_ne_overflow : ∀ (shape : Shape) {v : Value},
    shape.unbalanced = true ∨ v.isModerate = true → validate shape v ≠ .overflow
  | .any, v, _ => by simp [validate]
  | .text, v, _ => by unfold validate; split <;> simp [Verdict.reject]
  | .whole, v, _ => by simpa [validate] using Numeral.toWhole_ne_overflow v
  | .real, v, _ => by simpa [validate] using Numeral.toReal_ne_overflow v
  | .truth, v, _ => by simpa [validate] using Numeral.toTruth_ne_overflow v
  | .number, v, _ => by simpa [validate] using Numeral.toNumber_ne_overflow v
  | .choice options, v, _ => by
    unfold validate
    repeat' split
    all_goals simp [Verdict.reject]
  | .list item, v, h => by
    unfold validate
    split
    · rename_i xs
      rw [ne_eq, Verdict.map_eq_overflow]
      exact readItems_ne_overflow fun x hx => validate_ne_overflow item
        (h.imp id fun hv => isModerate_list.1 hv x hx)
    · simp [Verdict.reject]
  | .mapping item, v, h => by
    unfold validate
    split
    · rename_i es
      rw [ne_eq, Verdict.map_eq_overflow]
      exact readEntries_ne_overflow fun e he => validate_ne_overflow item
        (h.imp id fun hv => isModerate_mapping.1 hv e he)
    · simp [Verdict.reject]
  | .optional inner, v, h => by
    unfold validate
    split
    · simp
    · exact validate_ne_overflow inner h
  | .record kind fields, v, h => by
    unfold validate
    split
    · rename_i es
      rw [ne_eq, Verdict.andThen_eq_overflow, Verdict.both_eq_overflow]
      rintro ((hfields | hextra) | ⟨slots, -, hwhole⟩)
      · exact validateFields_ne_overflow fields (h.imp id fun hv =>
          isModerate_prepare (isModerate_mapping.1 hv)) hfields
      · exact unknownSlots_ne_overflow kind _ hextra
      · exact checkWhole_ne_overflow kind slots hwhole
    · simp [Verdict.reject]

/-- So it is with the fields of an entity. -/
theorem validateFields_ne_overflow : ∀ (fields : Fields) {es : List (String × Value)},
    Shape.unbalancedFields fields = true ∨ (∀ e ∈ es, e.2.isModerate = true) →
      validateFields fields es ≠ .overflow
  | [], es, _ => by simp [validateFields]
  | (f, shape) :: rest, es, h => by
    have hfield : f.rule ≠ .balance ∧ shape.unbalanced = true ∨
        ∀ e ∈ es, e.2.isModerate = true := by
      refine h.imp (fun hu => ?_) id
      rw [Shape.unbalancedFields, Bool.and_eq_true, Bool.and_eq_true, bne_iff_ne] at hu
      exact hu.1
    have hrest : Shape.unbalancedFields rest = true ∨ ∀ e ∈ es, e.2.isModerate = true := by
      refine h.imp (fun hu => ?_) id
      rw [Shape.unbalancedFields, Bool.and_eq_true] at hu
      exact hu.2
    rw [validateFields, ne_eq, Verdict.both_eq_overflow, not_or]
    refine ⟨?_, validateFields_ne_overflow rest hrest⟩
    split
    · rename_i name v hgiven
      rw [Verdict.under_eq_overflow, Verdict.andThen_eq_overflow]
      have hv : (∀ e ∈ es, e.2.isModerate = true) → (f.rule.prepare v).isModerate = true :=
        fun hes => isModerate_prepareRule (hes _ (mem_of_given? hgiven))
      rintro (hread | ⟨w, hw, hcheck⟩)
      · exact validate_ne_overflow shape (hfield.imp And.right hv) hread
      · refine check_ne_overflow (hfield.imp And.left fun hes => ?_) hcheck
        rintro n rfl
        exact fits_of_validate (hv hes) shape hw
    · split <;> simp

end

end Schema

end StoryWorld
