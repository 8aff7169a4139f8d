import StoryWorld.Number.Binary

/-!
Decimal fractions: reading one as a float, and the shortest one that reads back as a given float.

`shortest` tries one digit, two digits and so on up to seventeen. On each grid only the two
neighbours of the value can read back to it if any point does; the nearer one is taken, and of two
equally near ones the even.
-/

namespace StoryWorld

/-- The decimal fraction `digits · 10 ^ exponent`. -/
structure Decimal where
  digits : Nat
  exponent : Int
  deriving DecidableEq, Repr

namespace Decimal

/-- A power of ten. -/
def tenTo (n : Nat) : Nat := Nat.pow 10 n

/-- How many decimal digits a natural number has. -/
def digitCount (n : Nat) : Nat := (Nat.toDigits 10 n).length

/-- `num / den` divided by `10 ^ unit`, as a numerator and a denominator. -/
def scale (num den : Nat) : Int → Nat × Nat
  | .ofNat e => (num, den * tenTo e)
  | .negSucc e => (num * tenTo (e + 1), den)

/-- The float nearest to a decimal fraction, or `none` if it is too large for any. Fractions far
outside the range of floats are settled by the place of their first digit. -/
def toFloat? (negative : Bool) (d : Decimal) : Option Float :=
  let point := d.exponent + digitCount d.digits
  if d.digits = 0 ∨ point < -400 then Binary.ofQuotient? negative 0 1
  else if 400 < point then none
  else
    let value := scale d.digits 1 (-d.exponent)
    Binary.ofQuotient? negative value.1 value.2

/-- The least `p` with `num / den < 10 ^ p`, for a positive quotient. -/
def leading (num den : Nat) : Int :=
  if den ≤ num then digitCount (num / den)
  else
    let k := digitCount (den / num)
    if den ≤ num * tenTo (k - 1) then 2 - (k : Int) else 1 - k

/-- The neighbour of `num / den` on the grid `10 ^ unit` that reads back as `x`, if one does: the
nearer of two, and of two equally near ones the even. -/
def onGrid? (x : Float) (num den : Nat) (unit : Int) : Option Decimal :=
  let scaled := scale num den unit
  let low := scaled.1 / scaled.2
  let rest := scaled.1 % scaled.2
  let reads (n : Nat) : Bool := (toFloat? false ⟨n, unit⟩).any fun y => y.toBits == x.toBits
  match reads low, reads (low + 1) with
  | true, true =>
    let high := decide (scaled.2 < 2 * rest) || (decide (scaled.2 = 2 * rest) && low % 2 == 1)
    some ⟨if high then low + 1 else low, unit⟩
  | true, false => some ⟨low, unit⟩
  | false, true => some ⟨low + 1, unit⟩
  | false, false => none

/-- The decimal fraction of fewest digits that reads back as the positive finite float `x`.
Seventeen digits always suffice. -/
def shortest (x : Float) : Decimal :=
  match Binary.parts? x with
  | none => ⟨0, 0⟩
  | some v =>
    let value : Nat × Nat := Binary.scale v.mantissa 1 (-v.exponent)
    let point := leading value.1 value.2
    let found := (List.range 17).findSome? fun n =>
      onGrid? x value.1 value.2 (point - (n + 1 : Nat))
    found.getD ⟨v.mantissa * Binary.twoTo v.exponent.toNat, 0⟩

end Decimal

end StoryWorld
