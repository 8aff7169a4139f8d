import StoryWorld.Proofs.Rounding

/-!
Numbers by their values.

Every finite number stands for a rational, and numbers compare as these do, whether they are whole
numbers or floats: no comparison rounds. A number above zero becomes the float whose bits its value
is rounded to. So what is not larger stays not larger when both are made floats.
-/

namespace StoryWorld

namespace Binary

/-! ### The values of floats -/

namespace Exact

/-- The size of exact parts, without the sign. -/
def magnitude (v : Exact) : ℚ := v.mantissa * 2 ^ v.exponent

/-- The rational that exact parts stand for. -/
def value (v : Exact) : ℚ := if v.negative then -v.magnitude else v.magnitude

/-- Parts in range compare by their exponents first. -/
theorem magnitude_lt {u v : Exact} (hu : u.InRange) (hv : v.InRange)
    (h : u.exponent < v.exponent) : u.magnitude < v.magnitude := by
  have hfull : 2 ^ 52 ≤ v.mantissa := by
    rcases hv.full with hleast | hfull
    · have := hu.le_exponent
      omega
    · exact hfull
  have hm : (u.mantissa : ℚ) < 2 ^ 53 := by exact_mod_cast hu.mantissa_lt
  have hm' : (2 : ℚ) ^ 52 ≤ v.mantissa := by exact_mod_cast hfull
  calc u.magnitude < 2 ^ 53 * 2 ^ u.exponent := by
        rw [magnitude]
        gcongr
    _ = 2 ^ 52 * 2 ^ (u.exponent + 1) := by
        rw [zpow_add₀ two_ne_zero]
        ring
    _ ≤ 2 ^ 52 * 2 ^ v.exponent := by
        gcongr
        · exact one_le_two
        · exact h
    _ ≤ v.magnitude := by
        rw [magnitude]
        gcongr

/-- Parts in range compare by their exponents and then by their mantissas. -/
theorem compare_magnitude {u v : Exact} (hu : u.InRange) (hv : v.InRange) :
    compare u.magnitude v.magnitude =
      (compare u.exponent v.exponent).then (compare u.mantissa v.mantissa) := by
  rcases lt_trichotomy u.exponent v.exponent with h | h | h
  · rw [compare_lt_iff_lt.2 (magnitude_lt hu hv h), compare_lt_iff_lt.2 h]
    rfl
  · have hpow : (0 : ℚ) < 2 ^ v.exponent := by positivity
    rw [compare_eq_iff_eq.2 h, Ordering.eq_then, magnitude, magnitude, h, ← cmp_eq_compare,
      ← cmp_eq_compare, cmp_mul_pos_right hpow]
    exact Nat.strictMono_cast.cmp_map_eq u.mantissa v.mantissa
  · rw [compare_gt_iff_gt.2 (magnitude_lt hv hu h), compare_gt_iff_gt.2 h]
    rfl

end Exact

/-- A whole number and a float compare as their values. -/
theorem compareInt?_eq {x : Float} {v : Exact} (h : parts? x = some v) (n : Int) :
    compareInt? n x = some (compare (n : ℚ) v.value) := by
  have hcast : ∀ a b : Int, compare a b = compare (a : ℚ) b := fun a b => by
    rw [← cmp_eq_compare, ← cmp_eq_compare]
    exact (Int.cast_strictMono.cmp_map_eq a b).symm
  have hm : (((if v.negative then -(v.mantissa : Int) else v.mantissa) : Int) : ℚ) * 2 ^ v.exponent =
      v.value := by
    rw [Exact.value, Exact.magnitude]
    split <;> push_cast <;> ring
  rw [compareInt?, h]
  simp only
  rw [← hm]
  cases hexp : v.exponent with
  | ofNat e =>
    simp only
    rw [hcast, twoTo_eq, Int.cast_mul, Int.cast_natCast, Nat.cast_pow, Nat.cast_ofNat,
      Int.ofNat_eq_natCast, zpow_natCast]
  | negSucc e =>
    have hpos : (0 : ℚ) < 2 ^ (e + 1) := by positivity
    simp only
    rw [hcast, twoTo_eq, Int.cast_mul, Int.cast_natCast, Nat.cast_pow, Nat.cast_ofNat,
      zpow_negSucc, ← div_eq_mul_inv, ← cmp_eq_compare, ← cmp_eq_compare,
      ← cmp_mul_pos_right hpos (n : ℚ), div_mul_cancel₀ _ hpos.ne']

open Float.Model Float.Model.UnpackedFloat

/-- The value of what is unpacked: a zero, or a size with a sign. -/
theorem value_of_exactOf {a : UnpackedFloat} {u : Exact} (h : exactOf a = some u) :
    (∃ s, a = .zero s ∧ u.value = 0) ∨ ∃ s m e hm, a = .finite s m e hm ∧
      u = ⟨s == .negative, m, e⟩ ∧ 0 < u.magnitude := by
  cases a with
  | infinity s => cases h
  | notANumber => cases h
  | zero s =>
    obtain rfl := by simpa [exactOf] using h
    exact .inl ⟨s, rfl, by simp [Exact.value, Exact.magnitude]⟩
  | finite s m e hm =>
    obtain rfl := by simpa [exactOf] using h
    refine .inr ⟨s, m, e, hm, rfl, rfl, ?_⟩
    have hm' : (0 : ℚ) < m := by exact_mod_cast hm
    rw [Exact.magnitude]
    positivity

/-- Two floats compare as their values. -/
theorem compare_unpack {x y : Float} {u v : Exact} (hx : parts? x = some u)
    (hy : parts? y = some v) :
    x.toModel.unpack.compare y.toModel.unpack = some (compare u.value v.value) := by
  have horder := Exact.compare_magnitude (parts?_range hx).1 (parts?_range hy).1
  rw [parts?_eq] at hx hy
  rcases value_of_exactOf hx with ⟨s, ha, hu⟩ | ⟨s, m, e, hm, ha, rfl, hu⟩ <;>
    rcases value_of_exactOf hy with ⟨s', hb, hv⟩ | ⟨s', m', e', hm', hb, rfl, hv⟩
  · rw [ha, hb, hu, hv]
    rfl
  · rw [ha, hb, hu]
    cases s' with
    | positive => exact congrArg some (compare_lt_iff_lt.2 hv).symm
    | negative => exact congrArg some (compare_gt_iff_gt.2 (neg_neg_of_pos hv)).symm
  · rw [ha, hb, hv]
    cases s with
    | positive => exact congrArg some (compare_gt_iff_gt.2 hu).symm
    | negative => exact congrArg some (compare_lt_iff_lt.2 (neg_neg_of_pos hu)).symm
  · rw [ha, hb]
    cases s with
    | positive =>
      cases s' with
      | positive => exact congrArg some horder.symm
      | negative => exact congrArg some (compare_gt_iff_gt.2 ((neg_neg_of_pos hv).trans hu)).symm
    | negative =>
      cases s' with
      | positive => exact congrArg some (compare_lt_iff_lt.2 ((neg_neg_of_pos hu).trans hv)).symm
      | negative =>
        have hanti : StrictAnti fun p : ℚ => -p := fun _ _ h => neg_lt_neg h
        have hneg : ∀ p q : ℚ, compare (-p) (-q) = (compare p q).swap := fun p q => by
          rw [← cmp_eq_compare, ← cmp_eq_compare, cmp_swap]
          exact hanti.cmp_map_eq p q
        refine congrArg some ?_
        show _ = compare (-Exact.magnitude _) (-Exact.magnitude _)
        rw [hneg, horder]

theorem lt_iff_compare {x y : Float} :
    x < y ↔ x.toModel.unpack.compare y.toModel.unpack = some .lt := by
  rw [← beq_iff_eq]
  exact decide_eq_true_iff

/-- What floats are unpacked to compares the other way round with the order turned around. -/
theorem compare_swap (u v : UnpackedFloat) : v.compare u = (u.compare v).map Ordering.swap := by
  cases u with
  | notANumber => cases v <;> rfl
  | infinity s =>
    cases v with
    | notANumber => cases s <;> rfl
    | infinity s' => cases s <;> cases s' <;> rfl
    | _ => cases s <;> rfl
  | zero s =>
    cases v with
    | notANumber => rfl
    | zero s' => rfl
    | infinity s' => cases s' <;> rfl
    | finite s' => cases s' <;> rfl
  | finite s m e hm =>
    cases v with
    | notANumber => cases s <;> rfl
    | zero s' => cases s <;> rfl
    | infinity s' => cases s' <;> cases s <;> rfl
    | finite s' m' e' hm' =>
      have hsizes : (compare e' e).then (compare m' m) =
          ((compare e e').then (compare m m')).swap := by
        rw [Ordering.swap_then, ← cmp_eq_compare, ← cmp_eq_compare, ← cmp_eq_compare,
          ← cmp_eq_compare, cmp_swap, cmp_swap]
      cases s <;> cases s' <;> simp [UnpackedFloat.compare, hsizes]

/-- Two floats compare, by the operators on floats, as what they are unpacked to. -/
theorem compareFloat?_unpack (x y : Float) :
    Number.compareFloat? x y = x.toModel.unpack.compare y.toModel.unpack := by
  have hswap := compare_swap x.toModel.unpack y.toModel.unpack
  have hbeq : (x == y) = (x.toModel.unpack.compare y.toModel.unpack == some .eq) := rfl
  rw [Number.compareFloat?, hbeq]
  simp only [lt_iff_compare, hswap]
  cases x.toModel.unpack.compare y.toModel.unpack with
  | none => simp
  | some o => cases o <;> simp

/-- Two floats compare as their values, by the operators on floats. -/
theorem compareFloat?_eq {x y : Float} {u v : Exact} (hx : parts? x = some u)
    (hy : parts? y = some v) : Number.compareFloat? x y = some (compare u.value v.value) := by
  rw [compareFloat?_unpack, compare_unpack hx hy]

end Binary

/-! ### The values of numbers -/

namespace Number

/-- The rational that a finite number stands for. -/
def value? : Number → Option ℚ
  | int n => some n
  | float x => (Binary.parts? x).map Binary.Exact.value

variable {a b : Number} {p q : ℚ}

/-- Finite numbers compare as their values. -/
theorem compare?_eq (ha : a.value? = some p) (hb : b.value? = some q) :
    a.compare? b = some (compare p q) := by
  cases a with
  | int m =>
    obtain rfl : (m : ℚ) = p := by simpa [value?] using ha
    cases b with
    | int n =>
      obtain rfl : (n : ℚ) = q := by simpa [value?] using hb
      rw [compare?, ← cmp_eq_compare, ← cmp_eq_compare, Int.cast_strictMono.cmp_map_eq]
    | float y =>
      obtain ⟨v, hy, rfl⟩ := Option.map_eq_some_iff.1 hb
      exact Binary.compareInt?_eq hy m
  | float x =>
    obtain ⟨u, hx, rfl⟩ := Option.map_eq_some_iff.1 ha
    cases b with
    | int n =>
      obtain rfl : (n : ℚ) = q := by simpa [value?] using hb
      rw [compare?, Binary.compareInt?_eq hx, Option.map_some, ← cmp_eq_compare, cmp_swap,
        cmp_eq_compare]
    | float y =>
      obtain ⟨v, hy, rfl⟩ := Option.map_eq_some_iff.1 hb
      exact Binary.compareFloat?_eq hx hy

theorem less_iff (ha : a.value? = some p) (hb : b.value? = some q) : a.less b = true ↔ p < q := by
  rw [less, compare?_eq ha hb, beq_iff_eq, Option.some.injEq, compare_lt_iff_lt]

theorem atMost_iff (ha : a.value? = some p) (hb : b.value? = some q) :
    a.atMost b = true ↔ p ≤ q := by
  rw [atMost, Bool.or_eq_true, less_iff ha hb, equal, compare?_eq ha hb, beq_iff_eq,
    Option.some.injEq, compare_eq_iff_eq, le_iff_lt_or_eq]

/-- A finite number has a value. -/
theorem value?_of_finite (h : a.finite? = some true) : ∃ p, a.value? = some p := by
  cases a with
  | int n => exact ⟨n, rfl⟩
  | float x =>
    have hx : x.isFinite = true := by simpa [finite?, toFloat?] using h
    rw [Binary.isFinite_eq] at hx
    obtain ⟨v, hv⟩ := Option.isSome_iff_exists.1 hx
    exact ⟨v.value, by rw [value?, hv]; rfl⟩

/-- A balance is a finite number whose value is not below zero. -/
theorem isBalance_iff (ha : a.value? = some p) : a.IsBalance ↔ a.finite? = some true ∧ 0 ≤ p := by
  rw [IsBalance, atMost_iff (p := 0) (by simp [value?]) ha]

/-- A finite number that is not at most zero has a value above it. -/
theorem value_pos {a : Number} {p : ℚ} (ha : a.value? = some p) (h : a.atMost (.int 0) = false) :
    0 < p := by
  rw [← Bool.not_eq_true, atMost_iff (q := 0) ha (by simp [value?]), not_le] at h
  exact h

/-- A finite number above zero is a balance. -/
theorem isBalance_of_pos {a : Number} (hf : a.finite? = some true)
    (h : a.atMost (.int 0) = false) : a.IsBalance := by
  obtain ⟨p, hp⟩ := value?_of_finite hf
  exact (isBalance_iff hp).2 ⟨hf, (value_pos hp h).le⟩

end Number

/-! ### Numbers as floats -/

namespace Binary

open Float.Model.UnpackedFloat

/-- The bits of the float nearest to a rational that is not negative. -/
def bitsOf (q : ℚ) : Nat := bitsOfQuotient q.num.natAbs q.den

theorem natAbs_div_den {q : ℚ} (h : 0 ≤ q) : (q.num.natAbs : ℚ) / q.den = q := by
  have hnum : ((q.num.natAbs : Int) : ℚ) = q.num := by
    rw [Int.natAbs_of_nonneg (Rat.num_nonneg.2 h)]
  rw [← Int.cast_natCast, hnum, Rat.num_div_den]

theorem bitsOfQuotient_eq_bitsOf {num den : Nat} (hd : 0 < den) :
    bitsOfQuotient num den = bitsOf ((num : ℚ) / den) := by
  have hq : (0 : ℚ) ≤ (num : ℚ) / den := by positivity
  have heq := natAbs_div_den hq
  exact le_antisymm (bitsOfQuotient_mono hd (Rat.den_pos _) heq.ge)
    (bitsOfQuotient_mono (Rat.den_pos _) hd heq.le)

/-- The larger of two rationals is rounded to the float with the larger bits. -/
theorem bitsOf_mono {p q : ℚ} (hp : 0 ≤ p) (h : p ≤ q) : bitsOf p ≤ bitsOf q := by
  refine bitsOfQuotient_mono p.den_pos q.den_pos ?_
  rw [natAbs_div_den hp, natAbs_div_den (hp.trans h)]
  exact h

/-- The size of parts in range is not rounded. -/
theorem bitsOf_magnitude {v : Exact} (hv : v.InRange) :
    bitsOf v.magnitude = (v.exponent + 1074).toNat * 2 ^ 52 + v.mantissa := by
  rcases Nat.eq_zero_or_pos v.mantissa with hzero | hm
  · have hleast : v.exponent = -1074 := hv.full.resolve_right (by omega)
    simp [Exact.magnitude, hzero, hleast, bitsOf, bitsOfQuotient]
  have hpow : (0 : ℚ) < 2 ^ v.exponent := by positivity
  have hmag : 0 < v.magnitude := by
    rw [Exact.magnitude]
    positivity
  have hnum : 0 < v.magnitude.num.natAbs := Int.natAbs_pos.2 (Rat.num_pos.2 hmag).ne'
  have hval := natAbs_div_den hmag.le
  have hupper : ∀ k : Nat, v.mantissa < 2 ^ k →
      Int.log 2 v.magnitude < (k : Int) + v.exponent := by
    intro k hk
    rw [← Int.lt_zpow_iff_log_lt one_lt_two hmag, zpow_add₀ (by norm_num), zpow_natCast,
      Exact.magnitude]
    have hk' : (v.mantissa : ℚ) < 2 ^ k := by exact_mod_cast hk
    exact mul_lt_mul_of_pos_right (by exact_mod_cast hk') (by exact_mod_cast hpow)
  have hplace : lastPlace v.magnitude.num.natAbs v.magnitude.den = v.exponent := by
    rw [lastPlace_eq hnum v.magnitude.den_pos, hval]
    have h53 := hupper 53 hv.mantissa_lt
    have hleast := hv.le_exponent
    by_cases hfull : 2 ^ 52 ≤ v.mantissa
    · have h52 : (52 : Int) + v.exponent ≤ Int.log 2 v.magnitude := by
        rw [← Int.zpow_le_iff_le_log one_lt_two hmag, zpow_add₀ (by norm_num), Exact.magnitude]
        have hfull' : (2 : ℚ) ^ 52 ≤ v.mantissa := by exact_mod_cast hfull
        exact mul_le_mul_of_nonneg_right (by exact_mod_cast hfull') (by positivity)
      push_cast at h53
      omega
    · have h52 := hupper 52 (by omega)
      have hexp := hv.full.resolve_right hfull
      push_cast at h52
      omega
  rw [bitsOf, bitsOfQuotient_eq hnum, mantissaOf, hplace]
  have hs := scale_pos v.magnitude.num.natAbs v.magnitude.den_pos v.exponent
  have hs' : (0 : ℚ) < (scale v.magnitude.num.natAbs v.magnitude.den v.exponent).2 := by
    exact_mod_cast hs
  have hscaled : ((scale v.magnitude.num.natAbs v.magnitude.den v.exponent).1 : ℚ) =
      v.mantissa * (scale v.magnitude.num.natAbs v.magnitude.den v.exponent).2 := by
    rw [← div_eq_iff hs'.ne', scale_eq, hval, Exact.magnitude, mul_div_cancel_right₀ _ hpow.ne']
  have hscaled' : (scale v.magnitude.num.natAbs v.magnitude.den v.exponent).1 =
      v.mantissa * (scale v.magnitude.num.natAbs v.magnitude.den v.exponent).2 := by
    exact_mod_cast hscaled
  rw [hscaled', roundHalfEven_mul _ hs]

/-- The bits of a float above zero are those that its value is rounded to. -/
theorem toBits_eq {x : Float} {v : Exact} (h : parts? x = some v) (hpos : 0 < v.value) :
    x.toBits.toNat = bitsOf v.value ∧ 0 < x.toBits.toNat ∧ x.toBits.toNat < infinityBits := by
  obtain ⟨hv, hbits, hsign⟩ := parts?_range h
  have hmag : 0 ≤ v.magnitude := by
    rw [Exact.magnitude]
    positivity
  have hneg : v.negative = false := by
    by_contra hn
    rw [Bool.not_eq_false] at hn
    rw [Exact.value, if_pos hn] at hpos
    linarith
  rw [hneg, eq_comm, decide_eq_false_iff_not, not_le] at hsign
  rw [Nat.mod_eq_of_lt hsign] at hbits
  rw [Exact.value, hneg, if_neg Bool.false_ne_true, bitsOf_magnitude hv]
  have hm : v.mantissa ≠ 0 := fun hzero => by
    rw [Exact.value, Exact.magnitude, hzero, Nat.cast_zero, zero_mul, neg_zero, ite_self] at hpos
    exact lt_irrefl 0 hpos
  have hinf := infinityBits_eq
  have := hv.mantissa_lt
  have := hv.exponent_le
  exact ⟨hbits, by omega, by omega⟩

/-- Bits below those of infinity are those of a float. -/
theorem toBits_ofBits {b : Nat} (h : b < infinityBits) :
    (Float.ofBits (UInt64.ofNat b)).toBits.toNat = b := by
  have hinf := infinityBits_eq
  have hb : (UInt64.ofNat b).toBitVec.toNat = b := by
    rw [UInt64.toBitVec_ofNat', BitVec.toNat_ofNat]
    omega
  have hnan : @isNaNBits .binary64 (UInt64.ofNat b).toBitVec = false := by
    rw [isNaNBits, decide_eq_false_iff_not]
    rintro ⟨hexp, -⟩
    have hfield := exponent_toNat (UInt64.ofNat b).toBitVec
    rw [hexp, hb] at hfield
    have hones : (-1#11).toNat = 2047 := rfl
    have hfield' : (2047 : Nat) = b / 2 ^ 52 % 2 ^ 11 := hones ▸ hfield
    omega
  have hpack : (Float.ofBits (UInt64.ofNat b)).toBits.toBitVec =
      pack .binary64 (unpack .binary64 (UInt64.ofNat b).toBitVec) := rfl
  rw [pack_unpack, hnan] at hpack
  show (Float.ofBits (UInt64.ofNat b)).toBits.toBitVec.toNat = b
  rw [hpack]
  exact hb

/-- A whole number that is not negative becomes a float just if it is rounded to one. -/
theorem ofInt?_eq {n : Int} (hn : 0 ≤ n) :
    ofInt? n = if infinityBits ≤ bitsOf n then none
      else some (Float.ofBits (UInt64.ofNat (bitsOf n))) := by
  have hbits : bitsOfQuotient n.natAbs 1 = bitsOf n := by
    rw [bitsOfQuotient_eq_bitsOf one_pos, Nat.cast_one, div_one, Nat.cast_natAbs, abs_of_nonneg hn]
  have hsign : decide (n < 0) = false := by
    rw [decide_eq_false_iff_not]
    omega
  rw [ofInt?, ofQuotient?, hsign, hbits]
  rfl

end Binary

namespace Number

/-- A number above zero that becomes a finite float becomes the one that its value is rounded to. -/
theorem toBits_of_toFloat? {a : Number} {q : ℚ} {x : Float} (ha : a.value? = some q) (hq : 0 < q)
    (hx : a.toFloat? = some x) :
    x.toBits.toNat = Binary.bitsOf q ∧ 0 < x.toBits.toNat ∧
      x.toBits.toNat < Binary.infinityBits := by
  cases a with
  | int n =>
    obtain rfl : (n : ℚ) = q := by simpa [value?] using ha
    have hn : 0 ≤ n := by exact_mod_cast hq.le
    rw [toFloat?, Binary.ofInt?_eq hn] at hx
    split at hx
    · cases hx
    · rename_i hlt
      obtain rfl := by simpa using hx
      have hone : (1 : ℚ) ≤ n := by
        have : 0 < n := by exact_mod_cast hq
        exact_mod_cast this
      have hpos : 0 < Binary.bitsOf 1 := by decide +kernel
      rw [Binary.toBits_ofBits (not_le.1 hlt)]
      exact ⟨rfl, hpos.trans_le (Binary.bitsOf_mono zero_le_one hone), not_le.1 hlt⟩
  | float y =>
    obtain rfl : y = x := by simpa [toFloat?] using hx
    obtain ⟨v, hy, rfl⟩ := Option.map_eq_some_iff.1 ha
    exact Binary.toBits_eq hy hq

/-- A whole number is finite just if it is rounded to a float. -/
theorem finite?_int {n : Int} (hn : 0 ≤ n) :
    (int n).finite? = some true ↔ Binary.bitsOf n < Binary.infinityBits := by
  rw [finite?, toFloat?, Binary.ofInt?_eq hn]
  split
  · rename_i hle
    simp [hle]
  · rename_i hlt
    have hfinite : (Float.ofBits (UInt64.ofNat (Binary.bitsOf n))).isFinite = true := by
      have hbits := Binary.toBits_ofBits (not_le.1 hlt)
      obtain ⟨v, hv, -⟩ := Binary.parts?_of_lt (hbits ▸ not_le.1 hlt)
      rw [Binary.isFinite_eq, hv]
      rfl
    simp [hfinite, not_le.1 hlt]

end Number

end StoryWorld
