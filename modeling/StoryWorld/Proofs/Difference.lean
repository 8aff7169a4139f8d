import StoryWorld.Proofs.Values

/-!
The difference of two floats stays in range.

Of two floats above zero the smaller is taken from the larger by exact arithmetic at the finer of
their places, and the difference is rounded at the place that it fills. That place is not above the
place of the larger float, and rounding at it carries only to the one above, which the larger float
does not stand at then. So the result is a float that is neither infinite nor below zero.
-/

namespace StoryWorld

namespace Binary

open Float.Model Float.Model.UnpackedFloat

/-! ### Mantissas with residual bits -/

/-- A mantissa rounded up if anything was cut off. -/
def ceil (em : ExtendedMantissa) : Nat :=
  em.mantissa + if em.roundBit || em.stickyBit then 1 else 0

/-- Rounding goes no further than rounding up. -/
theorem roundedMantissa_le (em : ExtendedMantissa) : em.roundedMantissa ≤ ceil em := by
  obtain ⟨m, r, s⟩ := em
  cases r <;> cases s <;>
    simp only [ceil, ExtendedMantissa.roundedMantissa, ExtendedMantissa.accuracy,
      Accuracy.roundToNearestEven, Bool.or_true, Bool.or_false, Bool.false_eq_true,
      if_true, if_false] <;> omega

theorem ceil_shiftRightOne {em : ExtendedMantissa} {k : Nat} (h : ceil em ≤ 2 * k) :
    ceil em.shiftRightOne ≤ k := by
  obtain ⟨m, r, s⟩ := em
  simp only [ceil, ExtendedMantissa.shiftRightOne] at h ⊢
  rcases Nat.mod_two_eq_zero_or_one m with hm | hm <;> cases r <;> cases s <;>
    simp [hm] at h ⊢ <;> omega

/-- A mantissa that is shifted to the right stays below a bound that is divided as often. -/
theorem ceil_shiftRight {em : ExtendedMantissa} : ∀ {s k : Nat}, ceil em ≤ 2 ^ s * k →
    ceil (em >>> s) ≤ k
  | 0, k, h => by
    rw [pow_zero, one_mul] at h
    exact h
  | s + 1, k, h => by
    have hhalf : ceil (em >>> s) ≤ 2 * k := by
      refine ceil_shiftRight ?_
      calc ceil em ≤ 2 ^ (s + 1) * k := h
        _ = 2 ^ s * (2 * k) := by ring
    exact ceil_shiftRightOne hhalf

theorem log2_shiftLeft {m : Nat} (hm : m ≠ 0) : ∀ k : Nat, (m <<< k).log2 = m.log2 + k
  | 0 => rfl
  | k + 1 => by
    have hne : m <<< k ≠ 0 := by
      rw [Nat.shiftLeft_eq]
      positivity
    rw [Nat.shiftLeft_succ, Nat.log2_two_mul hne, log2_shiftLeft hm k]
    rfl

/-! ### Rounding to a float -/

/-- A float that is not below zero and small enough to be finite. -/
def Fits (a : UnpackedFloat) : Prop :=
  a = .zero .positive ∨ ∃ m e hm, a = .finite .positive m e hm ∧ e ≤ 971

theorem targetExponent_eq (m : Nat) (e : Int) :
    Format.binary64.targetExponent (totalExponent m e) = max ((m.log2 : Int) + e - 52) (-1074) := by
  simp only [Format.targetExponent, totalExponent, Format.mantissaBits, Format.minExponent]
  norm_num
  omega

/-- A whole mantissa that is shifted to the place it fills, not above a place in range where it
would be one that fits, is rounded to a float in range. -/
theorem roundWithAccuracy_fits {m : Nat} {e E : Int} {M : Nat} (hE : E ≤ 971)
    (hplace : max ((m.log2 : Int) + e - 52) (-1074) ≤ E)
    (hleast : e ≤ max ((m.log2 : Int) + e - 52) (-1074)) (hM : M < 2 ^ 53)
    (hle : E = max ((m.log2 : Int) + e - 52) (-1074) → m ≤ 2 ^ (E - e).toNat * M) :
    Fits (roundWithAccuracy .binary64 .positive m e .exact) := by
  generalize hte : max ((m.log2 : Int) + e - 52) (-1074) = te at *
  have hexact : ceil ⟨m, false, false⟩ = m := rfl
  -- The bound that the rounded mantissa keeps: the full one, or that of the place `E`.
  have hrounded : ∀ k, m ≤ 2 ^ (te - e).toNat * k →
      (ExtendedMantissa.mk m false false >>> (te - e).toNat).roundedMantissa ≤ k := fun k hk =>
    (roundedMantissa_le _).trans (ceil_shiftRight (by rw [hexact]; exact hk))
  have hfull : (ExtendedMantissa.mk m false false >>> (te - e).toNat).roundedMantissa ≤ 2 ^ 53 := by
    refine hrounded _ ?_
    have hlog : m < 2 ^ (m.log2 + 1) := Nat.lt_log2_self
    calc m ≤ 2 ^ (m.log2 + 1) := hlog.le
      _ ≤ 2 ^ ((te - e).toNat + 53) := Nat.pow_le_pow_right Nat.two_pos (by omega)
      _ = 2 ^ (te - e).toNat * 2 ^ 53 := pow_add ..
  unfold roundWithAccuracy
  simp only [shiftToTargetExponent, shiftToExponent, targetExponent_eq, hte,
    ExtendedMantissa.ofMantissaAndAccuracy]
  split
  · exact .inl rfl
  · refine .inr ⟨_, _, _, rfl, ?_⟩
    generalize (ExtendedMantissa.mk m false false >>> (te - e).toNat).roundedMantissa = R at *
    have hR : (R.log2 : Int) ≤ 53 ∧ (te = E → (R.log2 : Int) ≤ 52) := by
      rcases Nat.eq_zero_or_pos R with rfl | hpos
      · simp
      · refine ⟨?_, fun heq => ?_⟩
        · have : R.log2 < 54 := (Nat.log2_lt hpos.ne').2 (by omega)
          omega
        · have hRM : R ≤ M := hrounded M (by rw [heq]; exact hle heq.symm)
          have : R.log2 < 53 := (Nat.log2_lt hpos.ne').2 (by omega)
          omega
    by_cases heq : te = E
    · have := hR.2 heq
      omega
    · have := hR.1
      omega

/-- What is below the largest mantissa at a place in range is rounded to a float in range. -/
theorem round_fits {m : Nat} {e E : Int} {M : Nat} (hm : 0 < m) (he : e ≤ E) (hE : E ≤ 971)
    (hleast : -1074 ≤ e) (hM : M < 2 ^ 53) (hle : m ≤ 2 ^ (E - e).toNat * M) :
    Fits (UnpackedFloat.round .binary64 .positive m e) := by
  have hlog : (m.log2 : Int) < 53 + (E - e) := by
    have hlt : m < 2 ^ ((E - e).toNat + 53) := by
      calc m ≤ 2 ^ (E - e).toNat * M := hle
        _ < 2 ^ (E - e).toNat * 2 ^ 53 := Nat.mul_lt_mul_of_pos_left hM (by positivity)
        _ = 2 ^ ((E - e).toNat + 53) := (pow_add ..).symm
    have := (Nat.log2_lt hm.ne').2 hlt
    omega
  unfold UnpackedFloat.round
  simp only [decreaseExponent, targetExponent_eq]
  have hshift := log2_shiftLeft hm.ne' (e - max ((m.log2 : Int) + e - 52) (-1074)).toNat
  refine roundWithAccuracy_fits (M := M) (E := E) hE ?_ ?_ hM fun heq => ?_
  · rw [hshift]
    omega
  · rw [hshift]
    omega
  · rw [hshift] at heq
    have hzero : (e - max ((m.log2 : Int) + e - 52) (-1074)).toNat = 0 := by omega
    rw [hzero]
    simpa using hle

/-- Taking what is not larger from a float leaves a float in range. -/
theorem sub_fits {m n : Nat} {e f : Int} (hm : 0 < m) (hn : 0 < n) (hleast : -1074 ≤ f)
    (hfe : f ≤ e) (hE : e ≤ 971) (hM : m < 2 ^ 53) (hle : n ≤ m * 2 ^ (e - f).toNat) :
    Fits (UnpackedFloat.sub .binary64 (.finite .positive m e hm) (.finite .positive n f hn)) := by
  have hmin : min e f = f := min_eq_right hfe
  simp only [UnpackedFloat.sub, decreaseExponent, hmin, Sign.apply, sub_self, Int.toNat_zero,
    Nat.shiftLeft_eq, UnpackedFloat.normalize]
  split
  · rename_i hlt
    rw [compare_lt_iff_lt] at hlt
    omega
  · exact .inl rfl
  · rename_i hgt
    rw [compare_gt_iff_gt] at hgt
    refine round_fits (M := m) (by omega) hfe hE hleast hM ?_
    rw [mul_comm]
    omega

/-! ### The float of a result -/

/-- What is packed with a positive sign and no exponent of infinity is finite and not negative. -/
theorem exactOf_packComponents {field : BitVec 11} (h : field ≠ -1#11) (fraction : BitVec 52) :
    ∃ v, exactOf (UnpackedFloat.unpack .binary64
      (packComponents .binary64 .positive field fraction)) = some v ∧ v.negative = false := by
  unfold UnpackedFloat.unpack
  simp only [unpackMantissa_packComponents, unpackExponent_packComponents,
    unpackSign_packComponents, Sign.ofBitVec_toBitVec]
  rw [if_neg h]
  split
  · split
    · exact ⟨_, rfl, rfl⟩
    · exact ⟨_, rfl, rfl⟩
  · exact ⟨_, rfl, rfl⟩

/-- A result in range is finite and not negative as a float. -/
theorem exactOf_pack {a : UnpackedFloat} (h : Fits a) :
    ∃ v, exactOf (UnpackedFloat.unpack .binary64 (UnpackedFloat.pack .binary64 a)) = some v ∧
      v.negative = false := by
  rcases h with rfl | ⟨m, e, hm, rfl, he⟩
  · exact exactOf_packComponents (by decide) 0
  · have hbias : (Format.binary64.exponentBias : Int) = 1023 := rfl
    simp only [UnpackedFloat.pack]
    rw [hbias]
    split
    · omega
    · split
      · refine exactOf_packComponents (fun hones => ?_) _
        have hnat := congrArg BitVec.toNat hones
        have hall : (-1#11).toNat = 2047 := rfl
        rw [hall, BitVec.toNat_ofNat] at hnat
        omega
      · exact exactOf_packComponents (by decide) _

/-- A float above zero is unpacked to its parts. -/
theorem unpack_of_parts {x : Float} {v : Exact} (h : parts? x = some v) (hsign : v.negative = false)
    (hpos : 0 < v.mantissa) :
    x.toModel.unpack = .finite .positive v.mantissa v.exponent hpos := by
  rw [parts?_eq] at h
  cases hx : x.toModel.unpack with
  | infinity s =>
    rw [hx] at h
    cases h
  | notANumber =>
    rw [hx] at h
    cases h
  | zero s =>
    rw [hx] at h
    obtain rfl := by simpa [exactOf] using h
    exact absurd hpos (lt_irrefl 0)
  | finite s m e hm =>
    rw [hx] at h
    obtain rfl := by simpa [exactOf] using h
    cases s with
    | positive => rfl
    | negative => cases hsign

/-- The difference of two floats above zero, the larger one first, is a balance. -/
theorem isBalance_sub {x y : Float} (hx : x.toBits.toNat < infinityBits)
    (hy : 0 < y.toBits.toNat) (h : y.toBits.toNat ≤ x.toBits.toNat) :
    (Number.float (x - y)).IsBalance := by
  obtain ⟨u, hu, husign, hubits⟩ := parts?_of_lt hx
  obtain ⟨v, hv, hvsign, hvbits⟩ := parts?_of_lt (h.trans_lt hx)
  obtain ⟨hurange, -, -⟩ := parts?_range hu
  obtain ⟨hvrange, -, -⟩ := parts?_range hv
  have hulimits := hurange.le_exponent
  have hvlimits := hvrange.le_exponent
  have humantissa := hurange.mantissa_lt
  have hvmantissa := hvrange.mantissa_lt
  have hvpos : 0 < v.mantissa := by
    rcases hvrange.full with hleast | hfull <;> omega
  have hupos : 0 < u.mantissa := by
    rcases hurange.full with hleast | hfull <;> omega
  have hexp : v.exponent ≤ u.exponent := by
    rcases hvrange.full with hleast | hfull <;> omega
  have hle : v.mantissa ≤ u.mantissa * 2 ^ (u.exponent - v.exponent).toNat := by
    rcases hexp.lt_or_eq with hlt | heq
    · have hfull : 2 ^ 52 ≤ u.mantissa := hurange.full.resolve_left (by omega)
      have htwo : 2 ^ 1 ≤ 2 ^ (u.exponent - v.exponent).toNat :=
        Nat.pow_le_pow_right Nat.two_pos (by omega)
      calc v.mantissa ≤ 2 ^ 52 * 2 ^ 1 := by omega
        _ ≤ u.mantissa * 2 ^ (u.exponent - v.exponent).toNat := Nat.mul_le_mul hfull htwo
    · rw [heq, sub_self, Int.toNat_zero, pow_zero, mul_one]
      rw [heq] at hvbits
      omega
  obtain ⟨w, hw, hwsign⟩ := exactOf_pack
    (sub_fits hupos hvpos hvlimits hexp hurange.exponent_le humantissa hle)
  rw [← unpack_of_parts hu husign hupos, ← unpack_of_parts hv hvsign hvpos] at hw
  have hparts : parts? (x - y) = some w := by
    rw [parts?_eq]
    exact hw
  have hfinite : (x - y).isFinite = true := by rw [isFinite_eq, hparts]; rfl
  have hvalue : (Number.float (x - y)).value? = some w.value := by
    rw [Number.value?, hparts]
    rfl
  rw [Number.isBalance_iff hvalue]
  refine ⟨by rw [Number.finite?, Number.toFloat?, Option.map_some, hfinite], ?_⟩
  rw [Exact.value, hwsign, if_neg Bool.false_ne_true, Exact.magnitude]
  positivity

end Binary

namespace Number

/-- A balance that covers an amount above zero can be reduced by it, and the rest is a balance. -/
theorem sub?_isBalance {b a : Number} (hb : b.IsBalance) (hf : a.finite? = some true)
    (hp : a.atMost (.int 0) = false) (hl : b.less a = false) :
    ∃ n, b.sub? a = some n ∧ n.IsBalance := by
  obtain ⟨q, hq⟩ := value?_of_finite hb.1
  obtain ⟨p, hpv⟩ := value?_of_finite hf
  have hpos := value_pos hpv hp
  have hle : p ≤ q := by
    rw [← Bool.not_eq_true, less_iff hq hpv, not_lt] at hl
    exact hl
  obtain ⟨x, hx, -⟩ := Option.map_eq_some_iff.1 hb.1
  obtain ⟨y, hy, -⟩ := Option.map_eq_some_iff.1 hf
  obtain ⟨hxbits, -, hxlt⟩ := toBits_of_toFloat? hq (hpos.trans_le hle) hx
  obtain ⟨hybits, hypos, -⟩ := toBits_of_toFloat? hpv hpos hy
  have horder : y.toBits.toNat ≤ x.toBits.toNat := by
    rw [hxbits, hybits]
    exact Binary.bitsOf_mono hpos.le hle
  have hreal : (float (x - y)).IsBalance := Binary.isBalance_sub hxlt hypos horder
  cases b with
  | int m =>
    cases a with
    | int n =>
      obtain rfl : (m : ℚ) = q := by simpa [value?] using hq
      obtain rfl : (n : ℚ) = p := by simpa [value?] using hpv
      have hn : 0 < n := by exact_mod_cast hpos
      have hnm : n ≤ m := by exact_mod_cast hle
      have hless : ((m - n : Int) : ℚ) ≤ m := by exact_mod_cast sub_le_self m hn.le
      have hrest : (0 : ℚ) ≤ (m - n : Int) := by exact_mod_cast sub_nonneg.2 hnm
      refine ⟨int (m - n), rfl, (isBalance_iff rfl).2 ⟨?_, hrest⟩⟩
      rw [finite?_int (sub_nonneg.2 hnm)]
      exact (Binary.bitsOf_mono hrest hless).trans_lt ((finite?_int (hn.le.trans hnm)).1 hb.1)
    | float y' =>
      exact ⟨float (x - y), by simp [sub?, combine?, hx, hy], hreal⟩
  | float x' =>
    exact ⟨float (x - y), by simp [sub?, combine?, hx, hy], hreal⟩

end Number

end StoryWorld
