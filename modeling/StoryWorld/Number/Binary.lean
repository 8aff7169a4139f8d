/-!
Binary fractions of 64 bits, by exact integer arithmetic.

`parts?` gives the value behind a float as `mantissa · 2 ^ exponent`, and `ofQuotient?` goes the
other way: the float nearest to a quotient of naturals, a half going to the even neighbour. Both
the reading of decimals and the division of whole numbers rest on the second.
-/

namespace StoryWorld.Binary

/-- A power of two. -/
def twoTo (n : Nat) : Nat := Nat.pow 2 n

/-- The exact value of a finite float: `mantissa · 2 ^ exponent`, below zero if `negative`. -/
structure Exact where
  negative : Bool
  mantissa : Nat
  exponent : Int
  deriving DecidableEq, Repr

/-- The value of a float, or `none` for the infinities and the undefined float. -/
def parts? (x : Float) : Option Exact :=
  let bits := x.toBits.toNat
  let negative := decide (twoTo 63 ≤ bits)
  let field : Nat := bits / twoTo 52 % twoTo 11
  let fraction : Nat := bits % twoTo 52
  if field = 2047 then none
  else if field = 0 then some ⟨negative, fraction, -1074⟩
  else some ⟨negative, fraction + twoTo 52, (field : Int) - 1075⟩

/-- `num / den` divided by `2 ^ unit`, again as a numerator and a denominator. -/
def scale (num den : Nat) : Int → Nat × Nat
  | .ofNat e => (num, den * twoTo e)
  | .negSucc e => (num * twoTo (e + 1), den)

/-- The whole number nearest to `num / den`, a half going to the even neighbour. -/
def roundHalfEven (num den : Nat) : Nat :=
  let low := num / den
  let rest := num % den
  if 2 * rest < den then low else if den < 2 * rest then low + 1 else low + low % 2

/-- The exponent of the last place of a float near `num / den`: 53 places fit, and no place is
finer than `2 ^ -1074`. -/
def lastPlace (num den : Nat) : Int :=
  let guess : Int := (num.log2 : Int) - den.log2
  let scaled := scale num den guess
  let top := if scaled.2 ≤ scaled.1 then guess else guess - 1
  max (top - 52) (-1074)

/-- The bits of the float nearest to `num / den`. A mantissa of 53 places carries its first bit
into the exponent field, so that adding the two parts is enough. -/
def bitsOfQuotient (num den : Nat) : Nat :=
  if num = 0 then 0
  else
    let unit := lastPlace num den
    let scaled := scale num den unit
    (unit + 1074).toNat * twoTo 52 + roundHalfEven scaled.1 scaled.2

/-- The bits of positive infinity; every finite float without its sign lies below. -/
def infinityBits : Nat := 2047 * twoTo 52

/-- The float nearest to `num / den` with the given sign, or `none` where the quotient is too
large for any finite float. -/
def ofQuotient? (negative : Bool) (num den : Nat) : Option Float :=
  let bits := bitsOfQuotient num den
  if infinityBits ≤ bits then none
  else some (Float.ofBits (UInt64.ofNat (bits + if negative then twoTo 63 else 0)))

/-- The float nearest to a whole number. -/
def ofInt? (n : Int) : Option Float := ofQuotient? (decide (n < 0)) n.natAbs 1

/-- The positive infinity. -/
def infinity : Float := Float.ofBits (UInt64.ofNat infinityBits)

/-- The float that stands for no number. -/
def undefined : Float := Float.ofBits (UInt64.ofNat (infinityBits + twoTo 51))

/-- The exact order of a whole number and a float; `none` if the float stands for no number. -/
def compareInt? (n : Int) (x : Float) : Option Ordering :=
  match parts? x with
  | some v =>
    let m : Int := if v.negative then -(v.mantissa : Int) else v.mantissa
    match v.exponent with
    | .ofNat e => some (compare n (m * twoTo e))
    | .negSucc e => some (compare (n * twoTo (e + 1)) m)
  | none => if x.isNaN then none else if x < 0 then some .gt else some .lt

/-- The whole number nearest to a finite float on the side of zero, with the fact whether
anything was cut off. -/
def truncate (v : Exact) : Int × Bool :=
  let m : Int := if v.negative then -(v.mantissa : Int) else v.mantissa
  match v.exponent with
  | .ofNat e => (m * twoTo e, false)
  | .negSucc e => (m.tdiv (twoTo (e + 1)), decide (v.mantissa % twoTo (e + 1) ≠ 0))

end StoryWorld.Binary
