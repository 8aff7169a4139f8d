import StoryWorld.Number.Layout
import StoryWorld.Proofs.Spelling
import StoryWorld.Proofs.Values

/-!
Decimal fractions by their values.

A run of digits denotes a number, and a decimal fraction a rational. How the fraction is written,
with more digits or fewer, makes no difference to the float it is read as: the place of its first
digit and the float nearest to it depend on the rational only.
-/

namespace StoryWorld

namespace Json

/-! ### Runs of digits -/

theorem natOf_append (s t : List Char) : natOf (s ++ t) = natOf s * 10 ^ t.length + natOf t := by
  have hfoldl : ∀ (t : List Char) (n : Nat),
      t.foldl (fun n c => 10 * n + (c.toNat - 48)) n = n * 10 ^ t.length + natOf t := by
    intro t
    induction t with
    | nil => simp [natOf]
    | cons c t ih =>
      intro n
      have hc := ih (10 * 0 + (c.toNat - 48))
      have hcons : natOf (c :: t) = (10 * 0 + (c.toNat - 48)) * 10 ^ t.length + natOf t := hc
      rw [List.foldl_cons, ih, hcons, List.length_cons]
      ring
  rw [natOf, List.foldl_append, hfoldl]
  rfl

theorem natOf_zeros (k : Nat) : natOf (List.replicate k '0') = 0 := by
  induction k with
  | zero => rfl
  | succ k ih =>
    rw [List.replicate_succ', natOf_append, ih]
    rfl

theorem natOf_toDigits (n : Nat) : natOf (Nat.toDigits 10 n) = n :=
  Nat.ofDigitChars_toDigits (by decide) (by decide)

theorem isDigit_eq (c : Char) : isDigit c = c.isDigit := by
  simp only [isDigit, Char.isDigit, Char.le_def]

theorem digits_toDigits (n : Nat) : Digits (Nat.toDigits 10 n) :=
  ⟨Nat.toDigits_ne_nil, fun c hc => by
    rw [isDigit_eq]
    exact Nat.isDigit_of_mem_toDigits (by decide) (by decide) hc⟩

theorem head?_toDigits {n : Nat} (h : 0 < n) : (Nat.toDigits 10 n).head? ≠ some '0' := by
  induction n using Nat.strongRecOn with
  | ind n ih =>
    rw [Nat.toDigits_eq_if (by decide)]
    split
    · next hlt => 
      interval_cases n <;> decide
    · next hge =>
      rw [List.head?_append_of_ne_nil _ Nat.toDigits_ne_nil]
      exact ih (n / 10) (by omega) (by omega)

end Json

namespace Decimal

/-! ### The value of a decimal fraction -/

/-- The rational that a decimal fraction stands for. -/
def value (d : Decimal) : ℚ := d.digits * 10 ^ d.exponent

theorem tenTo_eq (n : Nat) : tenTo n = 10 ^ n := rfl

theorem scale_eq (num den : Nat) (e : Int) :
    ((scale num den e).1 : ℚ) / (scale num den e).2 = num / den / 10 ^ e := by
  cases e with
  | ofNat k =>
    rw [scale, tenTo_eq, Nat.cast_mul, Nat.cast_pow, Nat.cast_ofNat, Int.ofNat_eq_natCast,
      zpow_natCast, div_div]
  | negSucc k =>
    rw [scale, tenTo_eq, Nat.cast_mul, Nat.cast_pow, Nat.cast_ofNat, zpow_negSucc,
      div_inv_eq_mul, div_mul_eq_mul_div]

theorem scale_pos {den : Nat} (num : Nat) (h : 0 < den) (e : Int) : 0 < (scale num den e).2 := by
  cases e with
  | ofNat k => exact Nat.mul_pos h (Nat.pow_pos (by decide))
  | negSucc k => exact h

theorem digitCount_eq {n : Nat} (h : 0 < n) : digitCount n = Nat.log 10 n + 1 := by
  have hcount : ∀ k, 0 < k → (digitCount n ≤ k ↔ n < 10 ^ k) := fun k hk =>
    Nat.length_toDigits_le_iff (by decide) hk
  have hpos : 0 < digitCount n := Nat.length_toDigits_pos
  refine le_antisymm ((hcount _ (Nat.succ_pos _)).2 (Nat.lt_pow_succ_log_self (by decide) n)) ?_
  exact Nat.succ_le_of_lt (Nat.log_lt_of_lt_pow h.ne' ((hcount _ hpos).1 le_rfl))

theorem value_pos {d : Decimal} (h : 0 < d.digits) : 0 < d.value := by
  rw [value]
  positivity

/-- The place of the first digit of a decimal fraction is told by its value. -/
theorem point_eq {d : Decimal} (h : 0 < d.digits) :
    d.exponent + digitCount d.digits = Int.log 10 d.value + 1 := by
  have hval := value_pos h
  have hlow : ((10 ^ Nat.log 10 d.digits : ℕ) : ℚ) ≤ d.digits := by
    exact_mod_cast Nat.pow_log_le_self 10 h.ne'
  have hhigh : (d.digits : ℚ) < ((10 ^ (Nat.log 10 d.digits + 1) : ℕ) : ℚ) := by
    exact_mod_cast Nat.lt_pow_succ_log_self (by decide) d.digits
  have hle : (Nat.log 10 d.digits : ℤ) + d.exponent ≤ Int.log 10 d.value := by
    rw [← Int.zpow_le_iff_le_log (by decide) hval, value, Nat.cast_ofNat, zpow_add₀ (by norm_num),
      zpow_natCast]
    push_cast at hlow
    gcongr
  have hlt : Int.log 10 d.value < ((Nat.log 10 d.digits + 1 : ℕ) : ℤ) + d.exponent := by
    rw [← Int.lt_zpow_iff_log_lt (by decide) hval, value, Nat.cast_ofNat,
      zpow_add₀ (by norm_num), zpow_natCast]
    push_cast at hhigh
    gcongr
  rw [digitCount_eq h]
  push_cast at hlt ⊢
  omega

/-- The bits that a decimal fraction is rounded to are those of its value. -/
theorem bitsOfQuotient_scale (d : Decimal) :
    Binary.bitsOfQuotient (scale d.digits 1 (-d.exponent)).1 (scale d.digits 1 (-d.exponent)).2 =
      Binary.bitsOf d.value := by
  rw [Binary.bitsOfQuotient_eq_bitsOf (scale_pos _ one_pos _), scale_eq, Nat.cast_one, div_one,
    zpow_neg, div_inv_eq_mul, value]

/-- Fractions of one value are read as the same float. -/
theorem toFloat?_congr {d e : Decimal} (hd : 0 < d.digits) (he : 0 < e.digits)
    (h : d.value = e.value) (negative : Bool) : d.toFloat? negative = e.toFloat? negative := by
  have hpoint : d.exponent + digitCount d.digits = e.exponent + digitCount e.digits := by
    rw [point_eq hd, point_eq he, h]
  simp only [toFloat?, Binary.ofQuotient?, bitsOfQuotient_scale, hpoint, h, hd.ne', he.ne']

end Decimal

end StoryWorld
