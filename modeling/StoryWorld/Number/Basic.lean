import StoryWorld.Number.Layout

/-!
Numbers of a story: whole numbers of any size and floats.

The two are kept apart throughout: they print differently and are stored differently. Arithmetic on
two whole numbers is exact; as soon as a float takes part the whole number is rounded to one, which
fails when it is too large. Comparison never rounds.
-/

namespace StoryWorld

/-- A whole number or a float. -/
inductive Number where
  | int (value : Int)
  | float (value : Float)
  deriving DecidableEq, Repr, Inhabited

namespace Number

/-- The number as a float; `none` for a whole number that is too large for any. -/
def toFloat? : Number → Option Float
  | int n => Binary.ofInt? n
  | float x => some x

/-- Applies the exact operation to two whole numbers and the rounded one otherwise. -/
def combine? (whole : Int → Int → Int) (real : Float → Float → Float) :
    Number → Number → Option Number
  | int a, int b => some (int (whole a b))
  | a, b => do
    let x ← a.toFloat?
    let y ← b.toFloat?
    return float (real x y)

/-- The sum; `none` where a whole number is too large to be rounded. -/
def add? : Number → Number → Option Number := combine? (· + ·) (· + ·)

/-- The difference; `none` where a whole number is too large to be rounded. -/
def sub? : Number → Number → Option Number := combine? (· - ·) (· - ·)

/-- The product; `none` where a whole number is too large to be rounded. -/
def mul? : Number → Number → Option Number := combine? (· * ·) (· * ·)

/-- The quotient by a number other than zero, always a float. Two whole numbers are divided
exactly and rounded once; `none` where a number or the quotient is too large. -/
def div? : Number → Number → Option Float
  | int a, int b => Binary.ofQuotient? (decide (a < 0) != decide (b < 0)) a.natAbs b.natAbs
  | a, b => do
    let x ← a.toFloat?
    let y ← b.toFloat?
    return x / y

/-- The number with the other sign. -/
def neg : Number → Number
  | int n => int (-n)
  | float x => float (-x)

/-- The order of two floats, `none` if one of them stands for no number. -/
def compareFloat? (x y : Float) : Option Ordering :=
  if x < y then some .lt else if x == y then some .eq else if y < x then some .gt else none

/-- The exact order of two numbers, `none` if one of them stands for no number. -/
def compare? : Number → Number → Option Ordering
  | int a, int b => some (compare a b)
  | int a, float y => Binary.compareInt? a y
  | float x, int b => (Binary.compareInt? b x).map Ordering.swap
  | float x, float y => compareFloat? x y

/-- Equal in value: `1` and `1.0` are, an undefined float is not even equal to itself. -/
def equal (a b : Number) : Bool := a.compare? b == some .eq

/-- Strictly less in value. -/
def less (a b : Number) : Bool := a.compare? b == some .lt

/-- Less or equal in value. -/
def atMost (a b : Number) : Bool := a.less b || a.equal b

/-- Equal to zero. -/
def isZero (a : Number) : Bool := a.equal (int 0)

/-- Whether the number is finite; `none` for a whole number too large for any float. -/
def finite? (a : Number) : Option Bool := a.toFloat?.map Float.isFinite

/-- The text of a number in messages. -/
def message : Number → List Char
  | int n => (toString n).toList
  | float x => Layout.message x

end Number

end StoryWorld
