import StoryWorld.Proofs.Shortest

/-!
The written form of a float is read as it.

A layout only places the point and fills up with zeros, so what it writes has the value of the
digits that it is given; and the digits of a float read back as it. Both forms have a point or a
power, so that no float is read as a whole number.
-/

namespace StoryWorld

namespace Binary

open Float.Model Float.Model.UnpackedFloat

/-! ### The sign of a float -/

/-- The bits without the highest. -/
def unsignedBits (b : BitVec 64) : BitVec 64 := BitVec.ofNat 64 (b.toNat % 2 ^ 63)

theorem unsignedBits_toNat (b : BitVec 64) : (unsignedBits b).toNat = b.toNat % 2 ^ 63 := by
  rw [unsignedBits, BitVec.toNat_ofNat]
  omega

theorem exponent_unsignedBits (b : BitVec 64) :
    @unpackExponent .binary64 (unsignedBits b) = @unpackExponent .binary64 b := by
  refine BitVec.eq_of_toNat_eq ?_
  rw [exponent_toNat, exponent_toNat, unsignedBits_toNat, twoTo_eq, twoTo_eq]
  omega

theorem mantissa_unsignedBits (b : BitVec 64) :
    @unpackMantissa .binary64 (unsignedBits b) = @unpackMantissa .binary64 b := by
  refine BitVec.eq_of_toNat_eq ?_
  rw [mantissa_toNat, mantissa_toNat, unsignedBits_toNat, twoTo_eq]
  omega

theorem sign_unsignedBits (b : BitVec 64) : @unpackSign .binary64 (unsignedBits b) = 0#1 := by
  refine BitVec.eq_of_toNat_eq ?_
  rw [sign_toNat, unsignedBits_toNat, Nat.div_eq_of_lt (Nat.mod_lt _ (by decide))]
  rfl

/-- Without its sign a float has the same bits but the highest. -/
theorem toBits_abs {x : Float} {v : Exact} (hx : parts? x = some v) :
    x.abs.toBits.toNat = x.toBits.toNat % 2 ^ 63 := by
  have hpow := twoTo_eq
  have hfield : x.toBits.toNat / 2 ^ 52 % 2 ^ 11 ≠ 2047 := by
    intro h
    simp only [parts?, hpow, h, if_true] at hx
    cases hx
  have habs : x.abs.toBits.toBitVec =
      pack .binary64 (unpack .binary64 x.toBits.toBitVec).abs := rfl
  have hnat : x.toBits.toNat = x.toBits.toBitVec.toNat := rfl
  show x.abs.toBits.toBitVec.toNat = _
  rw [habs]
  rw [hnat] at hfield ⊢
  generalize x.toBits.toBitVec = b at *
  have hones : @unpackExponent .binary64 b ≠ -1#11 := by
    intro h
    have htoNat := exponent_toNat b
    rw [h, hpow, hpow] at htoNat
    exact hfield htoNat.symm
  have hunpack : (unpack .binary64 b).abs = unpack .binary64 (unsignedBits b) := by
    unfold UnpackedFloat.unpack
    simp only [exponent_unsignedBits, mantissa_unsignedBits, sign_unsignedBits]
    rw [if_neg hones, if_neg hones]
    split
    · split <;> rfl
    · rfl
  have hnan : @isNaNBits .binary64 (unsignedBits b) = false := by
    rw [isNaNBits, decide_eq_false_iff_not]
    rintro ⟨hexp, -⟩
    rw [exponent_unsignedBits] at hexp
    exact hones hexp
  rw [hunpack, pack_unpack, hnan]
  exact unsignedBits_toNat b

theorem parts?_abs {x : Float} {v : Exact} (hx : parts? x = some v) :
    parts? x.abs = some { v with negative := false } := by
  have hpow := twoTo_eq
  have habs := toBits_abs hx
  simp only [parts?, hpow] at hx ⊢
  rw [habs]
  have hexponent :
      x.toBits.toNat % 2 ^ 63 / 2 ^ 52 % 2 ^ 11 = x.toBits.toNat / 2 ^ 52 % 2 ^ 11 := by omega
  have hfraction : x.toBits.toNat % 2 ^ 63 % 2 ^ 52 = x.toBits.toNat % 2 ^ 52 := by omega
  have hsign : ¬ 2 ^ 63 ≤ x.toBits.toNat % 2 ^ 63 := by omega
  rw [hexponent, hfraction, decide_eq_false hsign]
  split at hx
  · cases hx
  · next hones =>
    rw [if_neg hones]
    split at hx <;> cases hx
    · next hzero => rw [if_pos hzero]
    · next hzero => rw [if_neg hzero]

/-- A float is made up of its sign and its other bits. -/
theorem ofBits_signed {x : Float} {v : Exact} (hx : parts? x = some v) :
    Float.ofBits (UInt64.ofNat (x.toBits.toNat % 2 ^ 63 + if v.negative then twoTo 63 else 0)) =
      x := by
  have hsign := (parts?_range hx).2.2
  have hbits : x.toBits.toNat % 2 ^ 63 + (if v.negative then twoTo 63 else 0) =
      x.toBits.toNat := by
    have hlt := x.toBits.toNat_lt
    rw [hsign, twoTo_eq]
    by_cases hneg : 2 ^ 63 ≤ x.toBits.toNat
    · simp only [hneg, decide_true, if_true]
      omega
    · simp only [hneg, decide_false, Bool.false_eq_true, if_false]
      omega
  rw [hbits, UInt64.ofNat_toNat, Float.ofBits_toBits]

/-- The sign of a rounded quotient stands beside the bits of its size. -/
theorem ofQuotient?_signed {num den : Nat} {y : Float} (h : ofQuotient? false num den = some y)
    (negative : Bool) : ofQuotient? negative num den =
      some (Float.ofBits (UInt64.ofNat (y.toBits.toNat + if negative then twoTo 63 else 0))) := by
  unfold ofQuotient? at h ⊢
  simp only at h ⊢
  split at h
  · cases h
  · next hlt =>
    cases h
    have hbits : (Float.ofBits (UInt64.ofNat (bitsOfQuotient num den +
        if false = true then twoTo 63 else 0))).toBits.toNat = bitsOfQuotient num den :=
      toBits_ofBits (not_le.1 hlt)
    rw [if_neg hlt, hbits]

end Binary

namespace Decimal

theorem toFloat?_signed {d : Decimal} {y : Float} (h : d.toFloat? false = some y)
    (negative : Bool) : d.toFloat? negative =
      some (Float.ofBits
        (UInt64.ofNat (y.toBits.toNat + if negative then Binary.twoTo 63 else 0))) := by
  unfold toFloat? at h ⊢
  simp only at h ⊢
  split at h
  · next hzero => rw [if_pos hzero, Binary.ofQuotient?_signed h]
  · next hzero =>
    split at h
    · cases h
    · next hlarge => rw [if_neg hzero, if_neg hlarge, Binary.ofQuotient?_signed h]

/-- A fraction that reads back as a float without its sign is, with the sign, read as the float. -/
theorem toFloat?_of_readsAs {x : Float} {v : Binary.Exact} (hx : Binary.parts? x = some v)
    {d : Decimal} (hd : ReadsAs x.abs d) : d.toFloat? v.negative = some x := by
  obtain ⟨y, hy, hbits⟩ := hd
  rw [toFloat?_signed hy, hbits, Binary.toBits_abs hx, Binary.ofBits_signed hx]

end Decimal

namespace Json

/-! ### Numerals by their values -/

/-- The power of ten of a numeral. -/
def Numeral.power (n : Numeral) : Int :=
  match n.exponent with
  | some (below, digits) => if below then -(natOf digits : Int) else natOf digits
  | none => 0

/-- The decimal fraction that a numeral denotes, its sign left out. -/
def Numeral.size (n : Numeral) : Decimal :=
  ⟨natOf (n.whole ++ n.fraction.getD []), n.power - (n.fraction.getD []).length⟩

theorem Numeral.toFloat?_eq (n : Numeral) : n.toFloat? = n.size.toFloat? n.negative := rfl

/-- A text spells a float of the given size, which is not zero: it has a point or a power. -/
def SpellsFloat (negative : Bool) (q : ℚ) (s : List Char) : Prop :=
  ∃ n, SpellsNumeral n s ∧ n.negative = negative ∧
    (n.fraction.isSome = true ∨ n.exponent.isSome = true) ∧ 0 < n.size.digits ∧ n.size.value = q

/-- A numeral with a point or a power is read as a float by every dialect. -/
theorem Numeral.toNumber?_of_marked {n : Numeral}
    (h : n.fraction.isSome = true ∨ n.exponent.isSome = true) (dialect : Dialect) :
    n.toNumber? dialect = n.toFloat?.map .float := by
  rw [Numeral.toNumber?, if_neg]
  rcases h with h | h
  · simp [Option.isNone_eq_false_iff.2 h]
  · simp [Option.isNone_eq_false_iff.2 h]

/-- What spells the size of a fraction is read as the float that the fraction is. -/
theorem toNumber?_of_spellsFloat {negative : Bool} {d : Decimal} {x : Float} {s : List Char}
    (h : SpellsFloat negative d.value s) (hd : 0 < d.digits)
    (hx : d.toFloat? negative = some x) (dialect : Dialect) :
    ∃ n, SpellsNumeral n s ∧ n.toNumber? dialect = some (.float x) := by
  obtain ⟨n, hn, rfl, hmarked, hpos, hvalue⟩ := h
  refine ⟨n, hn, ?_⟩
  rw [Numeral.toNumber?_of_marked hmarked, Numeral.toFloat?_eq,
    Decimal.toFloat?_congr hpos hd hvalue, hx]
  rfl

/-- A numeral with a point or a power spells its size. -/
theorem SpellsNumeral.float {n : Numeral} {s : List Char} {q : ℚ} (h : SpellsNumeral n s)
    (hmarked : n.fraction.isSome = true ∨ n.exponent.isSome = true) (hq : 0 < q)
    (hvalue : n.size.value = q) : SpellsFloat n.negative q s := by
  refine ⟨n, h, rfl, hmarked, Nat.pos_of_ne_zero fun hzero => ?_, hvalue⟩
  rw [Decimal.value, hzero, Nat.cast_zero, zero_mul] at hvalue
  exact hq.ne hvalue

theorem digits_append {s t : List Char} (hs : Digits s) (ht : ∀ c ∈ t, isDigit c = true) :
    Digits (s ++ t) := by
  refine ⟨by simp [hs.1], fun c hc => ?_⟩
  rcases List.mem_append.1 hc with hc | hc
  · exact hs.2 c hc
  · exact ht c hc

theorem digits_append_left (s : List Char) {t : List Char} (ht : Digits t)
    (hs : ∀ c ∈ s, isDigit c = true) : Digits (s ++ t) := by
  refine ⟨by simp [ht.1], fun c hc => ?_⟩
  rcases List.mem_append.1 hc with hc | hc
  · exact hs c hc
  · exact ht.2 c hc

theorem isDigit_of_mem_zeros {k : Nat} {c : Char} (h : c ∈ List.replicate k '0') :
    isDigit c = true := by
  rw [List.eq_of_mem_replicate h]
  decide

theorem natOf_zeros_append (k : Nat) (s : List Char) :
    natOf (List.replicate k '0' ++ s) = natOf s := by
  rw [natOf_append, natOf_zeros, zero_mul, zero_add]

theorem digits_zero : Digits ['0'] := ⟨by simp, fun _ hc => isDigit_of_mem_zeros (k := 1) hc⟩

theorem natOf_pos {s : List Char} (h : Digits s) (hhead : s.head? ≠ some '0') : 0 < natOf s := by
  obtain ⟨hne, hdigits⟩ := h
  cases s with
  | nil => exact absurd rfl hne
  | cons c t =>
    have hc := hdigits c List.mem_cons_self
    have happend := natOf_append [c] t
    have hone : natOf [c] = c.toNat - 48 := by simp [natOf]
    rw [List.singleton_append, hone] at happend
    have hpos : 0 < c.toNat - 48 := by
      rw [isDigit, Bool.and_eq_true, decide_eq_true_iff, decide_eq_true_iff, Char.le_def] at hc
      have hge : 48 ≤ c.toNat := hc.1
      have hne : c.toNat ≠ 48 := by
        intro h
        apply hhead
        rw [List.head?_cons, ← Char.ofNat_toNat c, h]
      omega
    rw [happend]
    exact Nat.add_pos_left (Nat.mul_pos hpos (Nat.pow_pos (by decide))) _

end Json

namespace Layout

open Json

/-! ### Digits without zeros at the end -/

theorem toDigits_eq (d : Decimal) :
    ∃ k, Nat.toDigits 10 d.digits = significant d ++ List.replicate k '0' := by
  refine ⟨((Nat.toDigits 10 d.digits).reverse.takeWhile (· == '0')).length, ?_⟩
  have hzeros : (Nat.toDigits 10 d.digits).reverse.takeWhile (· == '0') =
      List.replicate ((Nat.toDigits 10 d.digits).reverse.takeWhile (· == '0')).length '0' := by
    rw [List.eq_replicate_iff]
    exact ⟨rfl, fun c hc => by simpa using List.mem_takeWhile_imp hc⟩
  rw [significant, ← List.reverse_replicate, ← hzeros, ← List.reverse_append,
    List.takeWhile_append_dropWhile, List.reverse_reverse]

/-- What is left of the digits of a fraction that is not zero, and its value by them and the place
of its point. -/
theorem significant_spec {d : Decimal} (hd : 0 < d.digits) :
    Digits (significant d) ∧ (significant d).head? ≠ some '0' ∧
      d.value = natOf (significant d) *
        10 ^ (d.exponent + Decimal.digitCount d.digits - (significant d).length) := by
  obtain ⟨k, hk⟩ := toDigits_eq d
  have hnat : d.digits = natOf (significant d) * 10 ^ k := by
    rw [← natOf_toDigits d.digits, hk, natOf_append, natOf_zeros, List.length_replicate, add_zero]
  have hne : significant d ≠ [] := by
    intro hnil
    rw [hnil] at hnat
    have hzero : natOf [] = 0 := rfl
    rw [hzero, zero_mul] at hnat
    omega
  have hcount : Decimal.digitCount d.digits = (significant d).length + k := by
    rw [Decimal.digitCount, hk, List.length_append, List.length_replicate]
  refine ⟨⟨hne, fun c hc => ?_⟩, ?_, ?_⟩
  · refine (digits_toDigits d.digits).2 c ?_
    rw [hk]
    exact List.mem_append_left _ hc
  · have hhead := head?_toDigits hd
    rwa [hk, List.head?_append_of_ne_nil _ hne] at hhead
  · have hexponent : d.exponent + ((significant d).length + k : ℕ) - (significant d).length =
        k + d.exponent := by
      push_cast
      ring
    rw [Decimal.value, hcount, hexponent, zpow_add₀ (by norm_num), zpow_natCast, ← mul_assoc]
    congr 1
    exact_mod_cast hnat

/-! ### The two forms -/

/-- The power of ten of a scientific form. -/
theorem exists_power (layout : Layout) (p : Int) : ∃ below digits,
    SpellsExponent (some (below, digits)) ('e' :: ([if p < 0 then '-' else '+'] ++ digits)) ∧
      (if below then -(natOf digits : Int) else natOf digits) = p ∧
      digits = List.replicate (layout.exponentWidth - (Nat.toDigits 10 p.natAbs).length) '0' ++
        Nat.toDigits 10 p.natAbs := by
  have hdigits := digits_append_left
    (List.replicate (layout.exponentWidth - (Nat.toDigits 10 p.natAbs).length) '0')
    (digits_toDigits p.natAbs) fun _ => isDigit_of_mem_zeros
  by_cases hp : p < 0
  · refine ⟨true, _, .some (.inl rfl) ?_ hdigits, ?_, rfl⟩
    · rw [if_pos hp]
      exact .minus
    · rw [natOf_zeros_append, natOf_toDigits, if_pos rfl]
      omega
  · refine ⟨false, _, .some (.inl rfl) ?_ hdigits, ?_, rfl⟩
    · rw [if_neg hp]
      exact .plus
    · rw [natOf_zeros_append, natOf_toDigits, if_neg Bool.false_ne_true]
      omega

section Forms

variable {digits : List Char} (hd : Digits digits) (hhead : digits.head? ≠ some '0')
include hd hhead

theorem size_pos (point : Int) : (0 : ℚ) < natOf digits * 10 ^ (point - digits.length) := by
  have hpos : (0 : ℚ) < natOf digits := by exact_mod_cast natOf_pos hd hhead
  positivity

/-- Zeros stand between the point and the digits. -/
theorem spellsFloat_below (negative : Bool) {point : Int} (h : point ≤ 0) :
    SpellsFloat negative (natOf digits * 10 ^ (point - digits.length))
      ((if negative then ['-'] else []) ++
        (['0', '.'] ++ List.replicate point.natAbs '0' ++ digits)) := by
  have hspell := @SpellsNumeral.intro negative _ _ _ _ _ digits_zero (fun _ => rfl)
    (.some (digits_append_left (List.replicate point.natAbs '0') hd
      fun _ => isDigit_of_mem_zeros)) .none
  have hfloat := hspell.float (.inl rfl) (size_pos hd hhead point) ?_
  · simpa using hfloat
  · have hnat : natOf (['0'] ++ (List.replicate point.natAbs '0' ++ digits)) = natOf digits := by
      rw [← natOf_zeros_append point.natAbs digits]
      exact natOf_zeros_append 1 _
    rw [Numeral.size, Decimal.value]
    simp only [Option.getD_some, hnat, Numeral.power, List.length_append, List.length_replicate]
    congr 2
    omega

/-- The point stands between the digits. -/
theorem spellsFloat_between (negative : Bool) {point : Nat} (h : 0 < point)
    (hlt : point < digits.length) :
    SpellsFloat negative (natOf digits * 10 ^ ((point : Int) - digits.length))
      ((if negative then ['-'] else []) ++ (digits.take point ++ '.' :: digits.drop point)) := by
  have hne : digits.take point ≠ [] := by
    rw [← List.length_pos_iff, List.length_take]
    omega
  have hfirst : (digits.take point).head? ≠ some '0' := by
    rwa [List.head?_take, if_neg (by omega)]
  have hspell := @SpellsNumeral.intro negative _ _ _ _ _
    ⟨hne, fun c hc => hd.2 c (List.mem_of_mem_take hc)⟩ (fun h => absurd h hfirst)
    (.some ⟨by simpa using hlt, fun c hc => hd.2 c (List.mem_of_mem_drop hc)⟩) .none
  have hfloat := hspell.float (.inl rfl) (size_pos hd hhead point) ?_
  · simpa using hfloat
  · rw [Numeral.size, Decimal.value]
    simp only [Option.getD_some, List.take_append_drop, Numeral.power, List.length_drop]
    congr 2
    omega

/-- Zeros stand between the digits and the point, and one after it. -/
theorem spellsFloat_above (negative : Bool) {point : Nat} (h : digits.length ≤ point) :
    SpellsFloat negative (natOf digits * 10 ^ ((point : Int) - digits.length))
      ((if negative then ['-'] else []) ++
        (digits ++ List.replicate (point - digits.length) '0' ++ ['.', '0'])) := by
  have hfirst : (digits ++ List.replicate (point - digits.length) '0').head? ≠ some '0' := by
    rwa [List.head?_append_of_ne_nil _ hd.1]
  have hspell := @SpellsNumeral.intro negative _ _ _ _ _
    (digits_append hd fun _ => isDigit_of_mem_zeros (k := point - digits.length))
    (fun h => absurd h hfirst) (.some digits_zero) .none
  have hfloat := hspell.float (.inl rfl) (size_pos hd hhead point) ?_
  · simpa using hfloat
  · have hone : natOf ['0'] = 0 := rfl
    have hsplit : (point : Int) - digits.length = (point - digits.length : Nat) := by omega
    rw [Numeral.size, Decimal.value]
    simp only [Option.getD_some, natOf_append, natOf_zeros, hone, Numeral.power, hsplit,
      zpow_natCast, List.length_replicate, List.length_singleton]
    push_cast
    rw [zpow_neg_one]
    ring

theorem spellsFloat_positional (negative : Bool) (point : Int) :
    SpellsFloat negative (natOf digits * 10 ^ (point - digits.length))
      ((if negative then ['-'] else []) ++ positional digits point) := by
  rw [positional]
  rcases le_or_gt point 0 with hle | hgt
  · rw [if_pos hle]
    exact spellsFloat_below hd hhead negative hle
  · obtain ⟨n, rfl⟩ := Int.eq_ofNat_of_zero_le hgt.le
    rw [if_neg hgt.not_ge, Int.toNat_natCast]
    simp only
    rcases lt_or_ge n digits.length with hlt | hge
    · have hempty : (digits.drop n).isEmpty = false := by simpa using hlt
      rw [hempty, Nat.sub_eq_zero_of_le hlt.le]
      simpa using spellsFloat_between hd hhead negative (by omega) hlt
    · rw [List.take_of_length_le hge, List.drop_of_length_le hge]
      simpa using spellsFloat_above hd hhead negative hge

/-- One digit stands before the point, and the power makes up for it. -/
theorem spellsFloat_scientific (negative : Bool) (layout : Layout) (point : Int) :
    SpellsFloat negative (natOf digits * 10 ^ (point - digits.length))
      ((if negative then ['-'] else []) ++ scientific layout digits point) := by
  obtain ⟨c, rest, rfl⟩ := List.exists_cons_of_ne_nil hd.1
  have hfirst : Digits [c] := ⟨by simp, fun d hc => hd.2 d (by simp_all)⟩
  obtain ⟨below, power, hpower, hvalue, htext⟩ := exists_power layout (point - 1)
  cases rest with
  | nil =>
    have hspell := @SpellsNumeral.intro negative _ _ _ _ _ hfirst (fun _ => rfl) .none hpower
    have hfloat := hspell.float (.inr rfl) (size_pos hd hhead point) ?_
    · rw [scientific]
      simpa [← htext] using hfloat
    · rw [Numeral.size, Decimal.value]
      simp only [Numeral.power, hvalue]
      simp
  | cons d rest =>
    have hrest : Digits (d :: rest) := ⟨by simp, fun e he => hd.2 e (List.mem_cons_of_mem _ he)⟩
    have hspell :=
      @SpellsNumeral.intro negative _ _ _ _ _ hfirst (fun _ => rfl) (.some hrest) hpower
    have hfloat := hspell.float (.inl rfl) (size_pos hd hhead point) ?_
    · rw [scientific]
      simpa [← htext] using hfloat
    · rw [Numeral.size, Decimal.value]
      simp only [Numeral.power, hvalue, Option.getD_some, List.singleton_append,
        List.length_cons]
      congr 2
      push_cast
      ring

end Forms

/-- A zero is written with its sign. -/
theorem spells_zero {x : Float} {v : Binary.Exact} (hx : Binary.parts? x = some v)
    (hm : v.mantissa = 0) (dialect : Dialect) :
    ∃ n, SpellsNumeral n ((if v.negative then ['-'] else []) ++ ['0', '.', '0']) ∧
      n.toNumber? dialect = some (.float x) := by
  obtain ⟨hv, hbits, -⟩ := Binary.parts?_range hx
  have hleast : v.exponent = -1074 := hv.full.resolve_right (by omega)
  have habs : x.abs.toBits.toNat = 0 := by
    rw [Binary.toBits_abs hx, hbits, hleast, hm]
    rfl
  have hreads : Decimal.ReadsAs x.abs ⟨0, -1⟩ := by
    refine ⟨_, rfl, ?_⟩
    rw [← UInt64.toNat_inj, habs]
    decide +kernel
  have hspell := @SpellsNumeral.intro v.negative _ _ _ _ _ digits_zero (fun _ => rfl)
    (.some digits_zero) .none
  refine ⟨_, by simpa using hspell, ?_⟩
  rw [Numeral.toNumber?_of_marked (.inl rfl), Numeral.toFloat?_eq]
  show (Decimal.toFloat? v.negative ⟨0, -1⟩).map _ = _
  rw [Decimal.toFloat?_of_readsAs hx hreads]
  rfl

/-- The text of a finite float is read as it. -/
theorem spells_finite {layout : Layout} {x : Float} {v : Binary.Exact}
    (hx : Binary.parts? x = some v) (dialect : Dialect) :
    ∃ n, SpellsNumeral n (finite layout v x) ∧ n.toNumber? dialect = some (.float x) := by
  rw [finite]
  simp only
  by_cases hzero : v.mantissa = 0
  · rw [if_pos hzero]
    exact spells_zero hx hzero dialect
  · rw [if_neg hzero]
    have hreads := Decimal.readsAs_shortest (Binary.parts?_abs hx) rfl (Nat.pos_of_ne_zero hzero)
    have hbits : 0 < x.abs.toBits.toNat := by
      rw [Binary.toBits_abs hx, (Binary.parts?_range hx).2.1]
      omega
    have hd := Decimal.digits_pos_of_readsAs hreads hbits
    obtain ⟨hdigits, hhead, hvalue⟩ := significant_spec hd
    refine toNumber?_of_spellsFloat ?_ hd (Decimal.toFloat?_of_readsAs hx hreads) dialect
    rw [hvalue]
    generalize (Decimal.shortest x.abs).exponent + _ = point
    by_cases hplace : layout.lowest ≤ point ∧ point ≤ layout.highest
    · rw [if_pos hplace]
      exact spellsFloat_positional hdigits hhead v.negative point
    · rw [if_neg hplace]
      exact spellsFloat_scientific hdigits hhead v.negative layout point

end Layout

end StoryWorld
