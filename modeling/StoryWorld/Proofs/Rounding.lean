import StoryWorld.Proofs.Floats

/-!
Rounding a quotient to a float keeps the order.

The place that a quotient is rounded at depends on its binary logarithm only, and the bits of the
result, read as a number, grow with the quotient: within one place because rounding to a whole number
does, and from one place to the next because a mantissa that is full carries into the exponent. The
bits of a float that is not negative are those that its own value is rounded to. So whatever stands
on one side of a float is rounded to that side.
-/

namespace StoryWorld.Binary

/-! ### Rounding to a whole number -/

theorem le_roundHalfEven (a b : Nat) : a / b ≤ roundHalfEven a b := by
  unfold roundHalfEven
  simp only
  split
  · exact le_rfl
  · split <;> omega

theorem roundHalfEven_le (a b : Nat) : roundHalfEven a b ≤ a / b + 1 := by
  unfold roundHalfEven
  simp only
  split
  · omega
  · split <;> omega

/-- A whole number stays what it is. -/
theorem roundHalfEven_mul (k : Nat) {d : Nat} (hd : 0 < d) : roundHalfEven (k * d) d = k := by
  simp [roundHalfEven, Nat.mul_div_cancel _ hd, hd]

/-- The larger of two quotients is rounded to the larger number. -/
theorem roundHalfEven_mono {a b c d : Nat} (hb : 0 < b) (hd : 0 < d) (h : a * d ≤ c * b) :
    roundHalfEven a b ≤ roundHalfEven c d := by
  have hlow : a / b ≤ c / d := by
    rw [Nat.le_div_iff_mul_le hd]
    refine Nat.le_of_mul_le_mul_right ?_ hb
    calc a / b * d * b = a / b * b * d := by ring
      _ ≤ a * d := Nat.mul_le_mul_right d (Nat.div_mul_le_self a b)
      _ ≤ c * b := h
  rcases Nat.lt_or_eq_of_le hlow with hlt | heq
  · calc roundHalfEven a b ≤ a / b + 1 := roundHalfEven_le a b
      _ ≤ c / d := hlt
      _ ≤ roundHalfEven c d := le_roundHalfEven c d
  · have hrest : a % b * d ≤ c % d * b := by
      have ha := Nat.div_add_mod a b
      have hc := Nat.div_add_mod c d
      rw [heq] at ha
      have hsum : (b * (c / d) + a % b) * d ≤ (d * (c / d) + c % d) * b := by rw [ha, hc]; exact h
      nlinarith
    have hc := le_roundHalfEven c d
    unfold roundHalfEven at hc ⊢
    simp only [heq] at hc ⊢
    by_cases h₁ : 2 * (a % b) < b
    · rw [if_pos h₁]
      exact hc
    rw [if_neg h₁]
    have hs₁ : ¬2 * (c % d) < d := by
      intro hs
      nlinarith
    rw [if_neg hs₁]
    by_cases h₂ : b < 2 * (a % b)
    · have hs₂ : d < 2 * (c % d) := by
        by_contra hs
        nlinarith
      rw [if_pos h₂, if_pos hs₂]
    · rw [if_neg h₂]
      split <;> omega

/-! ### The place of rounding -/

theorem scale_eq (num den : Nat) (e : Int) :
    ((scale num den e).1 : ℚ) / (scale num den e).2 = num / den / 2 ^ e := by
  cases e with
  | ofNat k =>
    rw [scale, twoTo_eq, Nat.cast_mul, Nat.cast_pow, Nat.cast_ofNat, Int.ofNat_eq_natCast,
      zpow_natCast, div_div]
  | negSucc k =>
    rw [scale, twoTo_eq, Nat.cast_mul, Nat.cast_pow, Nat.cast_ofNat, zpow_negSucc,
      div_inv_eq_mul, div_mul_eq_mul_div]

theorem scale_pos {den : Nat} (num : Nat) (h : 0 < den) (e : Int) : 0 < (scale num den e).2 := by
  cases e with
  | ofNat k => exact Nat.mul_pos h (Nat.pow_pos Nat.two_pos)
  | negSucc k => exact h

/-- Scaled quotients are in the order of the quotients. -/
theorem scale_le {num den num' den' : Nat} (hd : 0 < den) (hd' : 0 < den')
    (h : (num : ℚ) / den ≤ num' / den') (e : Int) :
    (scale num den e).1 * (scale num' den' e).2 ≤ (scale num' den' e).1 * (scale num den e).2 := by
  have hs : (0 : ℚ) < (scale num den e).2 := by exact_mod_cast scale_pos num hd e
  have hs' : (0 : ℚ) < (scale num' den' e).2 := by exact_mod_cast scale_pos num' hd' e
  have hle : ((scale num den e).1 : ℚ) / (scale num den e).2 ≤
      (scale num' den' e).1 / (scale num' den' e).2 := by
    rw [scale_eq, scale_eq]
    gcongr
  rw [div_le_div_iff₀ hs hs'] at hle
  exact_mod_cast hle

/-- The last place depends on the binary logarithm of the quotient. -/
theorem lastPlace_eq {num den : Nat} (hn : 0 < num) (hd : 0 < den) :
    lastPlace num den = max (Int.log 2 ((num : ℚ) / den) - 52) (-1074) := by
  have hn' : (0 : ℚ) < num := by exact_mod_cast hn
  have hd' : (0 : ℚ) < den := by exact_mod_cast hd
  have hq : (0 : ℚ) < (num : ℚ) / den := div_pos hn' hd'
  have hnum : (2 : ℚ) ^ (num.log2 : ℤ) ≤ num ∧ (num : ℚ) < 2 ^ ((num.log2 : ℤ) + 1) :=
    ⟨by exact_mod_cast Nat.log2_self_le hn.ne', by exact_mod_cast Nat.lt_log2_self⟩
  have hden : (2 : ℚ) ^ (den.log2 : ℤ) ≤ den ∧ (den : ℚ) < 2 ^ ((den.log2 : ℤ) + 1) :=
    ⟨by exact_mod_cast Nat.log2_self_le hd.ne', by exact_mod_cast Nat.lt_log2_self⟩
  -- The guess is the logarithm or one more.
  have hupper : Int.log 2 ((num : ℚ) / den) < (num.log2 : ℤ) - den.log2 + 1 := by
    rw [← Int.lt_zpow_iff_log_lt one_lt_two hq, div_lt_iff₀ hd']
    calc (num : ℚ) < 2 ^ ((num.log2 : ℤ) + 1) := hnum.2
      _ = 2 ^ ((num.log2 : ℤ) - den.log2 + 1) * 2 ^ (den.log2 : ℤ) := by
        rw [← zpow_add₀ two_ne_zero]
        congr 1
        ring
      _ ≤ 2 ^ ((num.log2 : ℤ) - den.log2 + 1) * den := by
        gcongr
        exact hden.1
  have hlower : (num.log2 : ℤ) - den.log2 - 1 ≤ Int.log 2 ((num : ℚ) / den) := by
    rw [← Int.zpow_le_iff_le_log one_lt_two hq, le_div_iff₀ hd']
    calc (2 : ℚ) ^ ((num.log2 : ℤ) - den.log2 - 1) * den
        ≤ 2 ^ ((num.log2 : ℤ) - den.log2 - 1) * 2 ^ ((den.log2 : ℤ) + 1) := by
          gcongr
          exact hden.2.le
      _ = 2 ^ (num.log2 : ℤ) := by
        rw [← zpow_add₀ two_ne_zero]
        congr 1
        ring
      _ ≤ num := hnum.1
  have hscaled : (scale num den ((num.log2 : ℤ) - den.log2)).2 ≤
      (scale num den ((num.log2 : ℤ) - den.log2)).1 ↔
        (num.log2 : ℤ) - den.log2 ≤ Int.log 2 ((num : ℚ) / den) := by
    have hs : (0 : ℚ) < (scale num den ((num.log2 : ℤ) - den.log2)).2 := by
      exact_mod_cast scale_pos num hd _
    have hone : (1 : ℚ) ≤ num / den / 2 ^ ((num.log2 : ℤ) - den.log2) ↔
        2 ^ ((num.log2 : ℤ) - den.log2) ≤ (num : ℚ) / den := by
      rw [le_div_iff₀ (by positivity), one_mul]
    rw [← scale_eq, one_le_div₀ hs, Nat.cast_le] at hone
    rw [hone]
    exact_mod_cast Int.zpow_le_iff_le_log one_lt_two hq
  simp only [lastPlace]
  by_cases hguess : (num.log2 : ℤ) - den.log2 ≤ Int.log 2 ((num : ℚ) / den)
  · rw [if_pos (hscaled.2 hguess)]
    omega
  · rw [if_neg fun h => hguess (hscaled.1 h)]
    omega

/-! ### The mantissa -/

section

variable {num den : Nat}

/-- A quotient at its last place has 53 places. -/
theorem scaled_lt (hn : 0 < num) (hd : 0 < den) :
    (scale num den (lastPlace num den)).1 < 2 ^ 53 * (scale num den (lastPlace num den)).2 := by
  have hq : (0 : ℚ) < (num : ℚ) / den := by positivity
  have hs : (0 : ℚ) < (scale num den (lastPlace num den)).2 := by exact_mod_cast scale_pos num hd _
  have hlt : (num : ℚ) / den < 2 ^ (53 + lastPlace num den) := by
    have hlog : Int.log 2 ((num : ℚ) / den) < 53 + lastPlace num den := by
      rw [lastPlace_eq hn hd]
      omega
    exact_mod_cast (Int.lt_zpow_iff_log_lt one_lt_two hq).2 hlog
  have hscaled : ((scale num den (lastPlace num den)).1 : ℚ) /
      (scale num den (lastPlace num den)).2 < 2 ^ 53 := by
    rw [scale_eq, div_lt_iff₀ (by positivity)]
    calc (num : ℚ) / den < 2 ^ (53 + lastPlace num den) := hlt
      _ = 2 ^ 53 * 2 ^ lastPlace num den := by
        rw [zpow_add₀ two_ne_zero]
        rfl
  rw [div_lt_iff₀ hs] at hscaled
  exact_mod_cast hscaled

/-- All of them are taken up, unless it is the finest place. -/
theorem le_scaled (hn : 0 < num) (hd : 0 < den) (h : -1074 < lastPlace num den) :
    2 ^ 52 * (scale num den (lastPlace num den)).2 ≤ (scale num den (lastPlace num den)).1 := by
  have hq : (0 : ℚ) < (num : ℚ) / den := by positivity
  have hs : (0 : ℚ) < (scale num den (lastPlace num den)).2 := by exact_mod_cast scale_pos num hd _
  have hle : (2 : ℚ) ^ (52 + lastPlace num den) ≤ (num : ℚ) / den := by
    have hlog : 52 + lastPlace num den ≤ Int.log 2 ((num : ℚ) / den) := by
      rw [lastPlace_eq hn hd] at h ⊢
      omega
    exact_mod_cast (Int.zpow_le_iff_le_log one_lt_two hq).2 hlog
  have hscaled : (2 : ℚ) ^ 52 ≤ ((scale num den (lastPlace num den)).1 : ℚ) /
      (scale num den (lastPlace num den)).2 := by
    rw [scale_eq, le_div_iff₀ (by positivity)]
    calc (2 : ℚ) ^ 52 * 2 ^ lastPlace num den = 2 ^ (52 + lastPlace num den) := by
          rw [zpow_add₀ two_ne_zero]
          rfl
      _ ≤ (num : ℚ) / den := hle
  rw [le_div_iff₀ hs] at hscaled
  exact_mod_cast hscaled

/-- The mantissa that a quotient is rounded to. -/
def mantissaOf (num den : Nat) : Nat :=
  roundHalfEven (scale num den (lastPlace num den)).1 (scale num den (lastPlace num den)).2

theorem mantissaOf_le (hn : 0 < num) (hd : 0 < den) : mantissaOf num den ≤ 2 ^ 53 := by
  have hs := scale_pos num hd (lastPlace num den)
  calc mantissaOf num den
      ≤ roundHalfEven (2 ^ 53 * (scale num den (lastPlace num den)).2)
          (scale num den (lastPlace num den)).2 :=
        roundHalfEven_mono hs hs (Nat.mul_le_mul_right _ (scaled_lt hn hd).le)
    _ = 2 ^ 53 := roundHalfEven_mul _ hs

theorem le_mantissaOf (hn : 0 < num) (hd : 0 < den) (h : -1074 < lastPlace num den) :
    2 ^ 52 ≤ mantissaOf num den := by
  have hs := scale_pos num hd (lastPlace num den)
  calc 2 ^ 52 = roundHalfEven (2 ^ 52 * (scale num den (lastPlace num den)).2)
          (scale num den (lastPlace num den)).2 := (roundHalfEven_mul _ hs).symm
    _ ≤ mantissaOf num den := roundHalfEven_mono hs hs (Nat.mul_le_mul_right _ (le_scaled hn hd h))

/-- The bits of the nearest float are its last place and its mantissa. -/
theorem bitsOfQuotient_eq (hn : 0 < num) :
    bitsOfQuotient num den = (lastPlace num den + 1074).toNat * 2 ^ 52 + mantissaOf num den := by
  rw [bitsOfQuotient, if_neg hn.ne']
  rfl

end

/-- The larger of two quotients is rounded to the float with the larger bits. -/
theorem bitsOfQuotient_mono {num den num' den' : Nat} (hd : 0 < den) (hd' : 0 < den')
    (h : (num : ℚ) / den ≤ num' / den') : bitsOfQuotient num den ≤ bitsOfQuotient num' den' := by
  rcases Nat.eq_zero_or_pos num with rfl | hn
  · simp [bitsOfQuotient]
  have hq : (0 : ℚ) < (num : ℚ) / den := by positivity
  have hn' : 0 < num' := by
    rcases Nat.eq_zero_or_pos num' with rfl | hn'
    · rw [Nat.cast_zero, zero_div] at h
      exact absurd (hq.trans_le h) (lt_irrefl 0)
    · exact hn'
  have hlog : Int.log 2 ((num : ℚ) / den) ≤ Int.log 2 ((num' : ℚ) / den') :=
    Int.log_mono_right hq h
  have hplace : lastPlace num den ≤ lastPlace num' den' := by
    rw [lastPlace_eq hn hd, lastPlace_eq hn' hd']
    omega
  have hleast : -1074 ≤ lastPlace num den := by
    rw [lastPlace_eq hn hd]
    omega
  rw [bitsOfQuotient_eq hn, bitsOfQuotient_eq hn']
  rcases hplace.lt_or_eq with hlt | heq
  · have hm := mantissaOf_le hn hd
    have hm' := le_mantissaOf hn' hd' (hleast.trans_lt hlt)
    omega
  · have hm : mantissaOf num den ≤ mantissaOf num' den' := by
      rw [mantissaOf, mantissaOf, ← heq]
      exact roundHalfEven_mono (scale_pos num hd _) (scale_pos num' hd' _) (scale_le hd hd' h _)
    rw [← heq]
    omega

end StoryWorld.Binary
