import StoryWorld.Proofs.Difference

/-!
All numbers but the undefined one in one order.

The infinities stand at the two ends of the finite numbers. So each number that stands for one has a
rank, one of two is less just if its rank is lower, and what has its sign turned around still stands
for a number, whose place is turned around too.
-/

namespace StoryWorld

namespace Binary

open Float.Model Float.Model.UnpackedFloat

variable {x y : Float} {s : Sign}

/-- A float without parts is an infinity, or stands for no number. -/
theorem exists_infinity (h : parts? x = none) (hx : x.isNaN = false) :
    ∃ s, x.toModel.unpack = .infinity s := by
  rw [parts?_eq] at h
  have hnan : x.toModel.unpack.isNaN = false := hx
  cases hu : x.toModel.unpack with
  | infinity s => exact ⟨s, rfl⟩
  | notANumber =>
    rw [hu] at hnan
    cases hnan
  | zero s =>
    rw [hu] at h
    cases h
  | finite s m e hm =>
    rw [hu] at h
    cases h

theorem parts?_infinity (hx : x.toModel.unpack = .infinity s) : parts? x = none := by
  rw [parts?_eq, hx]
  rfl

theorem isNaN_of_infinity (hx : x.toModel.unpack = .infinity s) : x.isNaN = false := by
  show x.toModel.unpack.isNaN = false
  rw [hx]
  rfl

/-- The negative infinity is below every finite float, the positive one above. -/
theorem compare_infinity {v : Exact} (hx : x.toModel.unpack = .infinity s)
    (hy : parts? y = some v) : x.toModel.unpack.compare y.toModel.unpack =
      some (if s == .negative then .lt else .gt) := by
  rw [parts?_eq] at hy
  rcases value_of_exactOf hy with ⟨s', hu, -⟩ | ⟨s', m, e, hm, hu, -, -⟩ <;>
  · rw [hx, hu]
    cases s <;> rfl

theorem infinity_lt_zero (hx : x.toModel.unpack = .infinity s) : x < 0 ↔ s = .negative := by
  have hzero : parts? 0 = some ⟨false, 0, -1074⟩ := by decide +kernel
  rw [lt_iff_compare, compare_infinity hx hzero]
  cases s <;> simp

/-! ### Turning the sign around -/

theorem unpack_packComponents_neg (s : Sign) (field : BitVec 11) (fraction : BitVec 52) :
    UnpackedFloat.unpack .binary64 (packComponents .binary64 (-s) field fraction) =
      (UnpackedFloat.unpack .binary64 (packComponents .binary64 s field fraction)).neg := by
  unfold UnpackedFloat.unpack
  simp only [unpackMantissa_packComponents, unpackExponent_packComponents,
    unpackSign_packComponents, Sign.ofBitVec_toBitVec]
  split
  · split <;> rfl
  · split
    · split <;> rfl
    · rfl

/-- A float is packed from a sign and two fields, and its sign turned around changes just the sign. -/
theorem exists_components {u : UnpackedFloat} (h : u.isNaN = false) :
    ∃ s field fraction, UnpackedFloat.pack .binary64 u = packComponents .binary64 s field fraction ∧
      UnpackedFloat.pack .binary64 u.neg = packComponents .binary64 (-s) field fraction := by
  cases u with
  | notANumber => cases h
  | infinity s => exact ⟨s, _, _, rfl, rfl⟩
  | zero s => exact ⟨s, _, _, rfl, rfl⟩
  | finite s m e hm =>
    simp only [UnpackedFloat.neg, UnpackedFloat.pack]
    split
    · exact ⟨s, _, _, rfl, rfl⟩
    · split <;> exact ⟨s, _, _, rfl, rfl⟩

/-- The bits of a float are packed from what they are unpacked to. -/
theorem pack_unpack_model (x : Float) :
    UnpackedFloat.pack .binary64 x.toModel.unpack = x.toModel.toBits.toBitVec := by
  rw [Float.Model.unpack, pack_unpack]
  split
  · next hnan =>
    rw [isNaNBits, decide_eq_true_iff] at hnan
    exact (x.toModel.valid.eq_packedNaN hnan.1 hnan.2).symm
  · rfl

theorem unpack_neg (h : x.isNaN = false) : (-x).toModel.unpack = x.toModel.unpack.neg := by
  obtain ⟨s, field, fraction, hpack, hneg⟩ := exists_components (u := x.toModel.unpack) h
  show UnpackedFloat.unpack .binary64 (UnpackedFloat.pack .binary64 x.toModel.unpack.neg) = _
  rw [hneg, unpack_packComponents_neg, ← hpack, pack_unpack_model]
  rfl

theorem isNaN_neg (h : x.isNaN = false) : (-x).isNaN = false := by
  show (-x).toModel.unpack.isNaN = false
  have hnan : x.toModel.unpack.isNaN = false := h
  rw [unpack_neg h]
  cases hx : x.toModel.unpack with
  | notANumber =>
    rw [hx] at hnan
    cases hnan
  | _ => rfl

/-- Parts with the other sign. -/
theorem parts?_neg {v : Exact} (h : parts? x = some v) :
    parts? (-x) = some { v with negative := !v.negative } := by
  rw [parts?_eq] at h
  have hnan : x.isNaN = false := by
    show x.toModel.unpack.isNaN = false
    cases hx : x.toModel.unpack with
    | notANumber =>
      rw [hx] at h
      cases h
    | _ => rfl
  rw [parts?_eq, unpack_neg hnan]
  cases hx : x.toModel.unpack with
  | zero s =>
    rw [hx] at h
    cases h
    cases s <;> rfl
  | finite s m e hm =>
    rw [hx] at h
    cases h
    cases s <;> rfl
  | _ =>
    rw [hx] at h
    cases h

end Binary

namespace Number

open Float.Model Float.Model.UnpackedFloat

variable {a b : Number} {x : Float} {s : Sign}

/-- A number that stands for one. -/
def IsDefined : Number → Prop
  | int _ => True
  | float x => x.isNaN = false

instance (n : Number) : Decidable n.IsDefined := by
  unfold IsDefined
  split <;> infer_instance

theorem IsDefined.neg (h : a.IsDefined) : a.neg.IsDefined := by
  cases a with
  | int n => trivial
  | float x => exact Binary.isNaN_neg h

/-- Where a number stands among all: a finite one at its value, an infinity at one of the ends. -/
def rank (a : Number) : WithBot (WithTop ℚ) :=
  match a.value? with
  | some q => ((q : WithTop ℚ) : WithBot (WithTop ℚ))
  | none => if a.less (int 0) then ⊥ else ⊤

/-- A number with a value is finite, any other that stands for one is an infinity. -/
theorem IsDefined.cases (h : a.IsDefined) :
    (∃ q, a.value? = some q) ∨ ∃ x s, a = float x ∧ x.toModel.unpack = .infinity s := by
  cases a with
  | int n => exact .inl ⟨n, rfl⟩
  | float x =>
    cases hx : Binary.parts? x with
    | some v => exact .inl ⟨v.value, by rw [value?, hx]; rfl⟩
    | none =>
      obtain ⟨s, hs⟩ := Binary.exists_infinity hx h
      exact .inr ⟨x, s, rfl, hs⟩

/-- An infinity compares with every finite number by its sign. -/
theorem compare?_infinity {q : ℚ} (hx : x.toModel.unpack = .infinity s) (hb : b.value? = some q) :
    (float x).compare? b = some (if s == .negative then .lt else .gt) ∧
      b.compare? (float x) = some (if s == .negative then .gt else .lt) := by
  cases b with
  | float y =>
    obtain ⟨v, hy, -⟩ := Option.map_eq_some_iff.1 hb
    have hxy := Binary.compare_infinity hx hy
    rw [compare?, compare?, Binary.compareFloat?_unpack, Binary.compareFloat?_unpack,
      Binary.compare_swap x.toModel.unpack, hxy]
    cases s <;> exact ⟨rfl, rfl⟩
  | int n =>
    rw [compare?, compare?, Binary.compareInt?, Binary.parts?_infinity hx,
      Binary.isNaN_of_infinity hx]
    have hzero := Binary.infinity_lt_zero hx
    cases s <;> simp [hzero]

theorem rank_infinity (hx : x.toModel.unpack = .infinity s) :
    (float x).rank = if s == .negative then ⊥ else ⊤ := by
  have hzero := (compare?_infinity (b := int 0) (q := 0) hx (by simp [value?])).1
  rw [rank, value?, Binary.parts?_infinity hx, Option.map_none, less, hzero]
  cases s <;> rfl

theorem rank_of_value {q : ℚ} (h : a.value? = some q) :
    a.rank = ((q : WithTop ℚ) : WithBot (WithTop ℚ)) := by
  rw [rank, h]

theorem rank_lt_top {q : ℚ} : ((q : WithTop ℚ) : WithBot (WithTop ℚ)) < ⊤ :=
  WithBot.coe_lt_coe.2 (WithTop.coe_lt_top q)

/-- Numbers that stand for one compare as their ranks. -/
theorem compare?_rank (ha : a.IsDefined) (hb : b.IsDefined) :
    a.compare? b = some (compare a.rank b.rank) := by
  rcases ha.cases with ⟨p, hp⟩ | ⟨x, s, rfl, hx⟩ <;> rcases hb.cases with ⟨q, hq⟩ | ⟨y, s', rfl, hy⟩
  · have hmono : StrictMono fun r : ℚ => ((r : WithTop ℚ) : WithBot (WithTop ℚ)) :=
      fun _ _ h => WithBot.coe_lt_coe.2 (WithTop.coe_lt_coe.2 h)
    rw [compare?_eq hp hq, rank_of_value hp, rank_of_value hq, ← cmp_eq_compare, ← cmp_eq_compare]
    exact congrArg some (hmono.cmp_map_eq p q).symm
  · rw [(compare?_infinity hy hp).2, rank_of_value hp, rank_infinity hy]
    cases s' with
    | negative => exact congrArg some (compare_gt_iff_gt.2 (WithBot.bot_lt_coe _)).symm
    | positive => exact congrArg some (compare_lt_iff_lt.2 rank_lt_top).symm
  · rw [(compare?_infinity hx hq).1, rank_of_value hq, rank_infinity hx]
    cases s with
    | negative => exact congrArg some (compare_lt_iff_lt.2 (WithBot.bot_lt_coe _)).symm
    | positive => exact congrArg some (compare_gt_iff_gt.2 rank_lt_top).symm
  · rw [compare?, Binary.compareFloat?_unpack, hx, hy, rank_infinity hx, rank_infinity hy]
    cases s <;> cases s' <;> rfl

/-- Of two numbers that stand for one, the less is the one of the lower rank. -/
theorem less_iff_rank (ha : a.IsDefined) (hb : b.IsDefined) :
    a.less b = true ↔ a.rank < b.rank := by
  rw [less, compare?_rank ha hb, beq_iff_eq, Option.some.injEq, compare_lt_iff_lt]

/-- Two that are equal have one rank. -/
theorem equal_iff_of_defined (ha : a.IsDefined) (hb : b.IsDefined) :
    a.equal b = true ↔ a.rank = b.rank := by
  rw [equal, compare?_rank ha hb, beq_iff_eq, Option.some.injEq, compare_eq_iff_eq]

theorem value?_neg (h : a.value? = some q) : a.neg.value? = some (-q) := by
  cases a with
  | int n =>
    cases h
    simp [neg, value?]
  | float x =>
    obtain ⟨v, hv, rfl⟩ := Option.map_eq_some_iff.1 h
    rw [neg, value?, Binary.parts?_neg hv, Option.map_some, Binary.Exact.value, Binary.Exact.value]
    cases v.negative <;> simp [Binary.Exact.magnitude]

/-- Turning the sign around turns the order around. -/
theorem rank_neg_lt (ha : a.IsDefined) (hb : b.IsDefined) :
    a.neg.rank < b.neg.rank ↔ b.rank < a.rank := by
  have hinfinity : ∀ {x : Float} {s : Sign}, x.toModel.unpack = .infinity s →
      (-x).toModel.unpack = .infinity (-s) := by
    intro x s hx
    rw [Binary.unpack_neg (Binary.isNaN_of_infinity hx), hx]
    rfl
  have hsign : (-Sign.positive == Sign.negative) = true := rfl
  rcases ha.cases with ⟨p, hp⟩ | ⟨x, s, rfl, hx⟩ <;> rcases hb.cases with ⟨q, hq⟩ | ⟨y, s', rfl, hy⟩
  · rw [rank_of_value hp, rank_of_value hq, rank_of_value (value?_neg hp),
      rank_of_value (value?_neg hq)]
    simp only [WithBot.coe_lt_coe, WithTop.coe_lt_coe, neg_lt_neg_iff]
  · rw [neg, rank_of_value hp, rank_of_value (value?_neg hp), rank_infinity hy,
      rank_infinity (hinfinity hy)]
    generalize -p = m
    cases s' <;> simp [rank_lt_top, hsign]
  · rw [neg, rank_of_value hq, rank_of_value (value?_neg hq), rank_infinity hx,
      rank_infinity (hinfinity hx)]
    generalize -q = m
    cases s <;> simp [rank_lt_top, hsign]
  · rw [neg, neg, rank_infinity hx, rank_infinity hy, rank_infinity (hinfinity hx),
      rank_infinity (hinfinity hy)]
    cases s <;> cases s' <;> simp [hsign]

end Number

end StoryWorld
