import Mathlib
import StoryWorld.Proofs.Holdings

/-!
Floats by their parts.

The parts of a float that are read off its bits are those that its arithmetic works with. So a float
is finite just when it has parts, and a finite number above zero is a balance.
-/

namespace StoryWorld

namespace Binary

open Float.Model Float.Model.UnpackedFloat

theorem twoTo_eq (n : Nat) : twoTo n = 2 ^ n := rfl

theorem infinityBits_eq : infinityBits = 2047 * 2 ^ 52 := rfl

/-! ### The fields of the bits -/

theorem exponent_toNat (b : BitVec 64) :
    (@unpackExponent .binary64 b).toNat = b.toNat / twoTo 52 % twoTo 11 := by
  rw [unpackExponent_def, BitVec.extractLsb'_toNat, Nat.shiftRight_eq_div_pow]
  rfl

theorem mantissa_toNat (b : BitVec 64) :
    (@unpackMantissa .binary64 b).toNat = b.toNat % twoTo 52 := by
  rw [unpackMantissa_def, BitVec.extractLsb'_toNat, Nat.shiftRight_eq_div_pow, pow_zero,
    Nat.div_one]
  rfl

theorem sign_toNat (b : BitVec 64) :
    (@unpackSign .binary64 b).toNat = b.toNat / 2 ^ 63 := by
  rw [unpackSign_def, BitVec.extractLsb'_toNat, Nat.shiftRight_eq_div_pow]
  have hb := b.isLt
  show b.toNat / 2 ^ 63 % 2 ^ 1 = b.toNat / 2 ^ 63
  omega

/-! ### The parts -/

/-- The parts of the model of a float. -/
def exactOf : UnpackedFloat → Option Exact
  | .notANumber | .infinity _ => none
  | .zero s => some ⟨s == .negative, 0, -1074⟩
  | .finite s m e _ => some ⟨s == .negative, m, e⟩

/-- The sign stands in the highest bit. -/
theorem isNegative_eq (b : BitVec 64) :
    decide (twoTo 63 ≤ b.toNat) =
      (Sign.ofBitVec (@unpackSign .binary64 b) == .negative) := by
  have hs := sign_toNat b
  have hb := b.isLt
  have hpow := twoTo_eq 63
  rw [Sign.ofBitVec]
  by_cases h : @unpackSign .binary64 b = 0#1
  · have h0 : b.toNat / 2 ^ 63 = 0 := by rw [← hs, h]; rfl
    rw [if_pos h, decide_eq_false (by omega)]
    rfl
  · have h1 : (@unpackSign .binary64 b).toNat ≠ 0 := fun h0 =>
      h (BitVec.eq_of_toNat_eq h0)
    rw [if_neg h, decide_eq_true (by omega)]
    rfl

/-- The parts of a float are those of its model. -/
theorem parts?_eq (x : Float) : parts? x = exactOf x.toModel.unpack := by
  have hbits : x.toBits.toNat = x.toModel.toBits.toBitVec.toNat := rfl
  rw [Float.Model.unpack, UnpackedFloat.unpack]
  simp only [parts?, hbits]
  rw [← exponent_toNat, ← mantissa_toNat, isNegative_eq]
  generalize x.toModel.toBits.toBitVec = b
  by_cases hinf : @unpackExponent .binary64 b = -1#11
  · rw [if_pos hinf, hinf, if_pos (by decide)]
    split <;> rfl
  have hfield : (@unpackExponent .binary64 b).toNat ≠ 2047 :=
    fun h => hinf (BitVec.eq_of_toNat_eq h)
  rw [if_neg hinf, if_neg hfield]
  by_cases hzero : @unpackExponent .binary64 b = 0#11
  · rw [if_pos hzero, hzero, if_pos (by decide)]
    split
    · rename_i h
      rw [h]
      rfl
    · rfl
  · have hfield0 : (@unpackExponent .binary64 b).toNat ≠ 0 :=
      fun h => hzero (BitVec.eq_of_toNat_eq h)
    rw [if_neg hzero, if_neg hfield0]
    have hm := (@unpackMantissa .binary64 b).isLt
    have happend : (1#1 ++ @unpackMantissa .binary64 b).toNat =
        (@unpackMantissa .binary64 b).toNat + twoTo 52 := by
      rw [BitVec.toNat_append, ← Nat.shiftLeft_add_eq_or_of_lt hm]
      exact Nat.add_comm _ _
    simp only [exactOf, happend]
    rfl

/-- Parts in range: the mantissa has 53 places at most, and all of them unless the exponent is the
least. -/
structure Exact.InRange (v : Exact) : Prop where
  mantissa_lt : v.mantissa < 2 ^ 53
  le_exponent : -1074 ≤ v.exponent
  exponent_le : v.exponent ≤ 971
  full : v.exponent = -1074 ∨ 2 ^ 52 ≤ v.mantissa

/-- The parts of a float are in range, and they make up its bits but the sign. -/
theorem parts?_range {x : Float} {v : Exact} (h : parts? x = some v) :
    v.InRange ∧ x.toBits.toNat % 2 ^ 63 = (v.exponent + 1074).toNat * 2 ^ 52 + v.mantissa ∧
      v.negative = decide (2 ^ 63 ≤ x.toBits.toNat) := by
  have hpow := twoTo_eq
  simp only [parts?, hpow] at h
  split at h
  · cases h
  · split at h
    · obtain rfl := by simpa using h
      refine ⟨⟨?_, le_rfl, by simp, .inl rfl⟩, ?_, rfl⟩ <;> simp only <;> omega
    · obtain rfl := by simpa using h
      refine ⟨⟨?_, ?_, ?_, .inr ?_⟩, ?_, rfl⟩ <;> simp only <;> omega

/-- Bits below those of infinity are the parts of a float that is not negative. -/
theorem parts?_of_lt {x : Float} (h : x.toBits.toNat < infinityBits) :
    ∃ v, parts? x = some v ∧ v.negative = false ∧
      x.toBits.toNat = (v.exponent + 1074).toNat * 2 ^ 52 + v.mantissa := by
  have hinf := infinityBits_eq
  have hpow := twoTo_eq
  have hsome : ∃ v, parts? x = some v := by
    simp only [parts?, hpow]
    rw [if_neg (by omega)]
    split <;> exact ⟨_, rfl⟩
  obtain ⟨v, hv⟩ := hsome
  obtain ⟨-, hbits, hsign⟩ := parts?_range hv
  rw [Nat.mod_eq_of_lt (by omega)] at hbits
  refine ⟨v, hv, ?_, hbits⟩
  rw [hsign, decide_eq_false_iff_not]
  omega

/-- A float is finite just when it has parts. -/
theorem isFinite_eq (x : Float) : x.isFinite = (parts? x).isSome := by
  rw [parts?_eq]
  show x.toModel.unpack.isFinite = _
  cases x.toModel.unpack <;> rfl

end Binary

end StoryWorld
