import StoryWorld.Proofs.Decimals

/-!
The digits of a float read back as it.

A float is written with as few digits as read back. Seventeen always do: with so many the fractions
lie closer to each other than nine tenths of the place of the float, so one of the two around it is
less than half a place away and is rounded to it. At a power of two, where the floats below lie
twice as close, the fraction above it is.
-/

namespace StoryWorld

namespace Binary

/-! ### What lies near a float is rounded to it -/

theorem roundHalfEven_near {a b k : Nat} (hb : 0 < b) (h : |(a : ℚ) / b - k| < 1 / 2) :
    roundHalfEven a b = k := by
  have hb' : (0 : ℚ) < b := by exact_mod_cast hb
  obtain ⟨hlow, hhigh⟩ := abs_lt.1 h
  have hlow' : (2 * k * b : ℚ) < 2 * a + b := by
    have hdiv : (k : ℚ) - 1 / 2 < a / b := by linarith
    rw [lt_div_iff₀ hb'] at hdiv
    linarith
  have hhigh' : (2 * a : ℚ) < 2 * k * b + b := by
    have hdiv : (a : ℚ) / b < k + 1 / 2 := by linarith
    rw [div_lt_iff₀ hb'] at hdiv
    linarith
  have hlow'' : 2 * k * b < 2 * a + b := by exact_mod_cast hlow'
  have hhigh'' : 2 * a < 2 * k * b + b := by exact_mod_cast hhigh'
  have hmod := Nat.div_add_mod a b
  have hlt := Nat.mod_lt a hb
  have hk : k = a / b ∨ k = a / b + 1 := by
    have hle : k ≤ a / b + 1 := by
      by_contra hgt
      nlinarith
    have hge : a / b ≤ k := by
      by_contra hgt
      have hmul := Nat.mul_le_mul_left b (show k + 1 ≤ a / b by omega)
      have hsplit : b * (k + 1) = k * b + b := by ring
      have htwice : 2 * k * b = 2 * (k * b) := by ring
      omega
    omega
  unfold roundHalfEven
  simp only
  rcases hk with hk | hk
  · have hrest : 2 * (a % b) < b := by
      rw [hk] at hhigh''
      nlinarith
    rw [if_pos hrest, hk]
  · have hrest : b < 2 * (a % b) := by
      rw [hk] at hlow''
      nlinarith
    rw [if_neg (by omega), if_pos hrest, hk]

/-- What lies less than half a place from a float is rounded to it; below a power of two the places
are finer. -/
theorem bitsOf_near {v : Exact} (hv : v.InRange) (hm : 0 < v.mantissa) {q : ℚ}
    (hq : |q - v.magnitude| < 2 ^ v.exponent / 2)
    (hside : v.magnitude ≤ q ∨ v.exponent = -1074 ∨ 2 ^ 52 < v.mantissa) :
    bitsOf q = (v.exponent + 1074).toNat * 2 ^ 52 + v.mantissa := by
  have hpow : (0 : ℚ) < 2 ^ v.exponent := by positivity
  obtain ⟨hlow, hhigh⟩ := abs_lt.1 hq
  have hm' : (1 : ℚ) ≤ v.mantissa := by exact_mod_cast hm
  have hlt' : (v.mantissa : ℚ) + 1 ≤ 2 ^ 53 := by exact_mod_cast hv.mantissa_lt
  rw [Exact.magnitude] at hlow hhigh hside
  have hpos : 0 < q := by nlinarith
  have hnum : 0 < q.num.natAbs := Int.natAbs_pos.2 (Rat.num_pos.2 hpos).ne'
  have hval := natAbs_div_den hpos.le
  have hupper : Int.log 2 q < 53 + v.exponent := by
    rw [← Int.lt_zpow_iff_log_lt one_lt_two hpos, zpow_add₀ (by norm_num)]
    push_cast
    nlinarith
  have hplace : lastPlace q.num.natAbs q.den = v.exponent := by
    rw [lastPlace_eq hnum q.den_pos, hval]
    have hleast := hv.le_exponent
    by_cases hexp : v.exponent = -1074
    · omega
    · have hfull : (2 : ℚ) ^ 52 ≤ v.mantissa := by exact_mod_cast hv.full.resolve_left hexp
      have hlower : 52 + v.exponent ≤ Int.log 2 q := by
        rw [← Int.zpow_le_iff_le_log one_lt_two hpos, zpow_add₀ (by norm_num)]
        push_cast
        rcases hside with hge | heq | hgt
        · nlinarith
        · exact absurd heq hexp
        · have hgt' : (2 : ℚ) ^ 52 + 1 ≤ v.mantissa := by exact_mod_cast hgt
          nlinarith
      omega
  rw [bitsOf, bitsOfQuotient_eq hnum, mantissaOf, hplace]
  congr 1
  refine roundHalfEven_near (scale_pos _ q.den_pos _) ?_
  rw [scale_eq, hval, abs_lt]
  constructor
  · rw [lt_sub_iff_add_lt, lt_div_iff₀ hpow]
    linarith
  · rw [sub_lt_iff_lt_add, div_lt_iff₀ hpow]
    linarith

end Binary

namespace Decimal

/-- The place of the first digit of a quotient. -/
theorem leading_eq {num den : Nat} (hn : 0 < num) (hd : 0 < den) :
    leading num den = Int.log 10 ((num : ℚ) / den) + 1 := by
  have hn' : (0 : ℚ) < num := by exact_mod_cast hn
  have hd' : (0 : ℚ) < den := by exact_mod_cast hd
  have hq : (0 : ℚ) < (num : ℚ) / den := div_pos hn' hd'
  unfold leading
  split
  · next hle =>
    have hone : (1 : ℚ) ≤ (num : ℚ) / den := by
      rw [one_le_div₀ hd']
      exact_mod_cast hle
    rw [digitCount_eq (Nat.div_pos hle hd), Int.log_of_one_le_right _ hone, Nat.floor_div_eq_div]
    push_cast
    rfl
  · next hlt =>
    have hpos : 0 < den / num := Nat.div_pos (by omega) hn
    rw [digitCount_eq hpos]
    generalize hlog : Nat.log 10 (den / num) = k
    have hlow : 10 ^ k * num ≤ den := by
      rw [← hlog]
      exact (Nat.le_div_iff_mul_le hn).1 (Nat.pow_log_le_self 10 hpos.ne')
    have hhigh : den < 10 ^ (k + 1) * num := by
      rw [← hlog]
      exact (Nat.div_lt_iff_lt_mul hn).1 (Nat.lt_pow_succ_log_self (by decide) _)
    have hlog_ge : -((k : ℤ) + 1) ≤ Int.log 10 ((num : ℚ) / den) := by
      rw [← Int.zpow_le_iff_le_log (by decide) hq, le_div_iff₀ hd', zpow_neg,
        inv_mul_le_iff₀ (by positivity)]
      exact_mod_cast hhigh.le
    have hlog_lt : Int.log 10 ((num : ℚ) / den) < -(k : ℤ) + 1 := by
      rw [← Int.lt_zpow_iff_log_lt (by decide) hq, div_lt_iff₀ hd', zpow_add₀ (by norm_num),
        zpow_neg, zpow_natCast, zpow_one, mul_assoc, lt_inv_mul_iff₀ (by positivity)]
      have hten : 10 ^ k * num < 10 * den := by omega
      exact_mod_cast hten
    have hiff : -(k : ℤ) ≤ Int.log 10 ((num : ℚ) / den) ↔ den ≤ num * 10 ^ k := by
      rw [← Int.zpow_le_iff_le_log (by decide) hq, le_div_iff₀ hd', zpow_neg,
        inv_mul_le_iff₀ (by positivity), mul_comm]
      exact_mod_cast Iff.rfl
    simp only [Nat.add_sub_cancel, tenTo_eq]
    split
    · next hle =>
      have := hiff.2 hle
      push_cast
      omega
    · next hgt =>
      have := mt hiff.1 hgt
      push_cast
      omega

/-! ### Reading back -/

/-- A fraction reads back as a float if it is read as one with the same bits. -/
def ReadsAs (x : Float) (d : Decimal) : Prop :=
  ∃ y, d.toFloat? false = some y ∧ y.toBits = x.toBits

theorem readsAs_iff {x : Float} {d : Decimal} :
    (d.toFloat? false).any (fun y => y.toBits == x.toBits) = true ↔ ReadsAs x d := by
  cases h : d.toFloat? false <;> simp [ReadsAs, h]

theorem readsAs_of_onGrid? {x : Float} {num den : Nat} {unit : Int} {d : Decimal}
    (h : onGrid? x num den unit = some d) : ReadsAs x d := by
  unfold onGrid? at h
  simp only at h
  split at h
  · next hlow hhigh =>
    cases h
    split
    · exact readsAs_iff.1 hhigh
    · exact readsAs_iff.1 hlow
  · next hlow _ =>
    cases h
    exact readsAs_iff.1 hlow
  · next _ hhigh =>
    cases h
    exact readsAs_iff.1 hhigh
  · cases h

/-- Either neighbour of a quotient on a grid is enough for the grid. -/
theorem exists_onGrid? {x : Float} {num den : Nat} {unit : Int}
    (h : ReadsAs x ⟨(scale num den unit).1 / (scale num den unit).2, unit⟩ ∨
      ReadsAs x ⟨(scale num den unit).1 / (scale num den unit).2 + 1, unit⟩) :
    ∃ d, onGrid? x num den unit = some d := by
  unfold onGrid?
  simp only
  split
  · exact ⟨_, rfl⟩
  · exact ⟨_, rfl⟩
  · exact ⟨_, rfl⟩
  · next hlow hhigh =>
    rcases h with h | h
    · rw [readsAs_iff.2 h] at hlow
      cases hlow
    · rw [readsAs_iff.2 h] at hhigh
      cases hhigh

/-- A fraction whose value is rounded to the bits of a float reads back as it. -/
theorem readsAs_of_bitsOf {x : Float} {d : Decimal} (hd : 0 < d.digits)
    (hlow : (10 : ℚ) ^ (-401 : ℤ) ≤ d.value) (hhigh : d.value < 10 ^ (400 : ℤ))
    (hbits : Binary.bitsOf d.value = x.toBits.toNat) (hx : x.toBits.toNat < Binary.infinityBits) :
    ReadsAs x d := by
  have hval := value_pos hd
  have hpoint := point_eq hd
  have hge : -401 ≤ Int.log 10 d.value :=
    (Int.zpow_le_iff_le_log (by decide) hval).1 (by exact_mod_cast hlow)
  have hlt : Int.log 10 d.value < 400 :=
    (Int.lt_zpow_iff_log_lt (by decide) hval).1 (by exact_mod_cast hhigh)
  refine ⟨Float.ofBits (UInt64.ofNat (Binary.bitsOf d.value)), ?_, ?_⟩
  · rw [toFloat?]
    simp only
    rw [if_neg (by omega), if_neg (by omega), Binary.ofQuotient?, bitsOfQuotient_scale,
      if_neg (by omega)]
    rfl
  · rw [← UInt64.toNat_inj, Binary.toBits_ofBits (by omega), hbits]

/-! ### Seventeen digits suffice -/

/-- Of the two fractions of a grid around a float, finer than nine tenths of its place, one lies so
near that it is rounded to the float. -/
theorem exists_near {v : Binary.Exact} (hv : v.InRange) {step : ℚ} (hstep : 0 < step)
    (hfine : step * 10 ^ 16 ≤ v.magnitude) {low : Nat} (hle : low * step ≤ v.magnitude)
    (hlt : v.magnitude < (low + 1) * step) :
    ∃ n : Nat, (n = low ∨ n = low + 1) ∧ 0 < n ∧
      Binary.bitsOf (n * step) = (v.exponent + 1074).toNat * 2 ^ 52 + v.mantissa := by
  have hpow : (0 : ℚ) < 2 ^ v.exponent := by positivity
  have hmag : v.magnitude = v.mantissa * 2 ^ v.exponent := rfl
  have hm : 0 < v.mantissa := by
    by_contra hzero
    rw [hmag, Nat.eq_zero_of_not_pos hzero, Nat.cast_zero, zero_mul] at hfine
    linarith
  have hpos : 0 < low := by
    by_contra hzero
    rw [Nat.eq_zero_of_not_pos hzero, Nat.cast_zero, zero_add, one_mul] at hlt
    linarith
  have hm' : (v.mantissa : ℚ) + 1 ≤ 2 ^ 53 := by exact_mod_cast hv.mantissa_lt
  by_cases hside : v.exponent = -1074 ∨ 2 ^ 52 < v.mantissa
  · -- The nearer of the two is at most half a step away.
    have hplace : step < 2 ^ v.exponent := by nlinarith
    rcases le_total (v.magnitude - low * step) (step / 2) with hnear | hfar
    · refine ⟨low, .inl rfl, hpos, Binary.bitsOf_near hv hm ?_ (.inr hside)⟩
      rw [abs_lt]
      constructor <;> linarith
    · refine ⟨low + 1, .inr rfl, Nat.succ_pos low, Binary.bitsOf_near hv hm ?_ (.inr hside)⟩
      push_cast
      rw [abs_lt]
      constructor <;> linarith
  · -- The float is a power of two, and the steps are less than half of its place.
    rw [not_or] at hside
    have hpower : v.mantissa = 2 ^ 52 := by
      have := hv.full.resolve_left hside.1
      omega
    have hplace : step < 2 ^ v.exponent / 2 := by
      rw [hmag, hpower] at hfine
      push_cast at hfine
      linarith
    refine ⟨low + 1, .inr rfl, Nat.succ_pos low, Binary.bitsOf_near hv hm ?_ (.inl ?_)⟩
    · push_cast
      rw [abs_lt]
      constructor <;> linarith
    · push_cast
      exact hlt.le

/-- What lies so far inside the range of floats is far from where fractions are told by their first
digit alone. -/
theorem magnitude_bounds {v : Binary.Exact} (hv : v.InRange) (hm : 0 < v.mantissa) :
    2 * (10 : ℚ) ^ (-401 : ℤ) ≤ v.magnitude ∧ 2 * v.magnitude < 10 ^ (400 : ℤ) := by
  have hm' : (1 : ℚ) ≤ v.mantissa := by exact_mod_cast hm
  have hlt : (v.mantissa : ℚ) < 2 ^ 53 := by exact_mod_cast hv.mantissa_lt
  have hpow : (0 : ℚ) < 2 ^ v.exponent := by positivity
  have hbase : ∀ k : ℕ, (2 : ℚ) ^ (3 * k : ℤ) ≤ 10 ^ (k : ℤ) := fun k => by
    rw [zpow_mul, zpow_natCast, zpow_natCast]
    exact pow_le_pow_left₀ (by norm_num) (by norm_num) k
  have hinv : ∀ k : ℕ, (10 : ℚ) ^ (-k : ℤ) ≤ 2 ^ (-(3 * k) : ℤ) := fun k => by
    rw [zpow_neg, zpow_neg]
    exact inv_anti₀ (by positivity) (hbase k)
  have hlow : (2 : ℚ) ^ (-1074 : ℤ) ≤ 2 ^ v.exponent :=
    zpow_le_zpow_right₀ (by norm_num) hv.le_exponent
  have hhigh : (2 : ℚ) ^ v.exponent ≤ 2 ^ (971 : ℤ) :=
    zpow_le_zpow_right₀ (by norm_num) hv.exponent_le
  rw [Binary.Exact.magnitude]
  constructor
  · have htwo : 2 * (2 : ℚ) ^ (-(3 * (401 : ℕ)) : ℤ) ≤ 2 ^ (-1074 : ℤ) := by
      rw [← zpow_one_add₀ (by norm_num)]
      exact zpow_le_zpow_right₀ (by norm_num) (by norm_num)
    calc 2 * (10 : ℚ) ^ (-401 : ℤ) ≤ 2 * 2 ^ (-(3 * (401 : ℕ)) : ℤ) :=
          (mul_le_mul_iff_right₀ two_pos).2 (hinv 401)
      _ ≤ 2 ^ (-1074 : ℤ) := htwo
      _ ≤ 2 ^ v.exponent := hlow
      _ ≤ v.mantissa * 2 ^ v.exponent := le_mul_of_one_le_left hpow.le hm'
  · have hten := hbase 400
    have htwo : 2 * ((2 : ℚ) ^ 53 * 2 ^ (971 : ℤ)) ≤ 2 ^ (3 * (400 : ℕ) : ℤ) := by
      rw [← zpow_natCast, ← zpow_add₀ (by norm_num), ← zpow_one_add₀ (by norm_num)]
      exact zpow_le_zpow_right₀ (by norm_num) (by norm_num)
    have hmul : (v.mantissa : ℚ) * 2 ^ v.exponent < 2 ^ 53 * 2 ^ (971 : ℤ) :=
      mul_lt_mul hlt hhigh hpow (by positivity)
    exact ((mul_lt_mul_iff_right₀ two_pos).2 hmul).trans_le (htwo.trans hten)

/-- A grid of seventeen digits has a fraction that reads back. -/
theorem exists_seventeen {x : Float} {v : Binary.Exact} (hx : Binary.parts? x = some v)
    (hsign : v.negative = false) (hm : 0 < v.mantissa) {num den : Nat} (hn : 0 < num)
    (hd : 0 < den) (hquot : (num : ℚ) / den = v.magnitude) :
    ∃ d, onGrid? x num den (leading num den - 17) = some d := by
  obtain ⟨hv, hbits, -⟩ := Binary.parts?_range hx
  have hvalue : v.value = v.magnitude := by simp [Binary.Exact.value, hsign]
  have hpos : 0 < v.magnitude := by
    rw [Binary.Exact.magnitude]
    positivity
  obtain ⟨hround, -, hfinite⟩ := Binary.toBits_eq hx (hvalue ▸ hpos)
  rw [hvalue, Binary.bitsOf_magnitude hv] at hround
  generalize hunit : leading num den - 17 = unit
  have hlog : Int.log 10 v.magnitude = unit + 16 := by
    rw [← hquot]
    have := leading_eq hn hd
    omega
  have hstep : (0 : ℚ) < 10 ^ unit := by positivity
  have hfine : (10 : ℚ) ^ unit * 10 ^ 16 ≤ v.magnitude := by
    have hle := Int.zpow_log_le_self (b := 10) (by decide) hpos
    rw [hlog, Nat.cast_ofNat, zpow_add₀ (by norm_num)] at hle
    exact_mod_cast hle
  have hden := scale_pos num hd unit
  have hden' : (0 : ℚ) < (scale num den unit).2 := by exact_mod_cast hden
  have hscale := scale_eq num den unit
  rw [hquot] at hscale
  have hlow : ((scale num den unit).1 / (scale num den unit).2 : Nat) * (10 : ℚ) ^ unit ≤
      v.magnitude := by
    rw [← le_div_iff₀ hstep, ← hscale]
    exact Nat.cast_div_le
  have hhigh : v.magnitude < (((scale num den unit).1 / (scale num den unit).2 : Nat) + 1) *
      (10 : ℚ) ^ unit := by
    rw [← div_lt_iff₀ hstep, ← hscale, div_lt_iff₀ hden']
    have hlt := Nat.lt_div_mul_add (a := (scale num den unit).1) hden
    rw [← Nat.succ_mul] at hlt
    exact_mod_cast hlt
  -- One of the two fractions around the float is rounded to it; that they are on the grid the
  -- search tries is what the rest says.
  obtain ⟨n, hn, hpos, hnear⟩ := exists_near hv hstep hfine hlow hhigh
  obtain ⟨hleast, hmost⟩ := magnitude_bounds hv hm
  have hle : (((scale num den unit).1 / (scale num den unit).2 : Nat) : ℚ) ≤ n ∧
      (n : ℚ) ≤ ((scale num den unit).1 / (scale num den unit).2 : Nat) + 1 := by
    rcases hn with rfl | rfl <;> push_cast <;> constructor <;> linarith
  have hlarge : v.magnitude ≤ 2 * (n * 10 ^ unit) := by nlinarith [hle.1]
  have hsmall : n * 10 ^ unit ≤ 2 * v.magnitude := by nlinarith [hle.2]
  have hreads : ReadsAs x ⟨n, unit⟩ :=
    readsAs_of_bitsOf hpos (le_of_mul_le_mul_left (hleast.trans hlarge) two_pos)
      (hsmall.trans_lt hmost) (hnear.trans hround.symm) hfinite
  refine exists_onGrid? ?_
  rcases hn with rfl | rfl
  · exact .inl hreads
  · exact .inr hreads

/-- The digits that a float above zero is written with read back as it. -/
theorem readsAs_shortest {x : Float} {v : Binary.Exact} (hx : Binary.parts? x = some v)
    (hsign : v.negative = false) (hm : 0 < v.mantissa) :
    ReadsAs x (shortest x) := by
  have hnum : 0 < (Binary.scale v.mantissa 1 (-v.exponent)).1 := by
    cases -v.exponent with
    | ofNat k => exact hm
    | negSucc k => exact Nat.mul_pos hm (Nat.pow_pos Nat.two_pos)
  have hquot : ((Binary.scale v.mantissa 1 (-v.exponent)).1 : ℚ) /
      (Binary.scale v.mantissa 1 (-v.exponent)).2 = v.magnitude := by
    rw [Binary.scale_eq, Nat.cast_one, div_one, zpow_neg, div_inv_eq_mul, Binary.Exact.magnitude]
  obtain ⟨d, hd⟩ := exists_seventeen hx hsign hm hnum (Binary.scale_pos _ one_pos _) hquot
  rw [shortest, hx]
  simp only
  generalize hfound : (List.range 17).findSome? _ = found
  cases found with
  | none =>
    rw [List.findSome?_eq_none_iff] at hfound
    have hnone := hfound 16 (by simp)
    rw [show ((16 + 1 : Nat) : Int) = 17 from rfl, hd] at hnone
    cases hnone
  | some e =>
    obtain ⟨n, -, he⟩ := List.exists_of_findSome?_eq_some hfound
    exact readsAs_of_onGrid? he

theorem digits_pos_of_readsAs {x : Float} {d : Decimal} (h : ReadsAs x d)
    (hx : 0 < x.toBits.toNat) : 0 < d.digits := by
  obtain ⟨y, hy, hbits⟩ := h
  by_contra hzero
  rw [toFloat?, if_pos (.inl (Nat.eq_zero_of_not_pos hzero))] at hy
  cases hy
  rw [← hbits] at hx
  revert hx
  decide +kernel

end Decimal

end StoryWorld
