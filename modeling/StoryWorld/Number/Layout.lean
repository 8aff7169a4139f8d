import StoryWorld.Number.Decimal

/-!
How the digits of a float are laid out as text.

A `Layout` holds the decisions of one written form. `plain` is the form of messages and answers,
`compact` the form of stored documents; they differ only in where positional writing starts and in
how wide an exponent is.
-/

namespace StoryWorld

/-- The decisions of a written form: where the point may stand for positional writing, and the
least number of digits of an exponent. -/
structure Layout where
  lowest : Int
  highest : Int
  exponentWidth : Nat
  deriving DecidableEq, Repr

namespace Layout

/-- Positional from `0.0001` up to sixteen whole digits, exponents of two digits or more. -/
def plain : Layout := ⟨-3, 16, 2⟩

/-- Positional from `0.00001` up to sixteen whole digits, exponents as short as they are. -/
def compact : Layout := ⟨-4, 16, 1⟩

/-- The digits of a decimal fraction without zeros at the end. -/
def significant (d : Decimal) : List Char :=
  ((Nat.toDigits 10 d.digits).reverse.dropWhile (· == '0')).reverse

/-- Digits with a point after the first `point` places, filled up with zeros on either side; at
least one digit stands on each side of the point. -/
def positional (digits : List Char) (point : Int) : List Char :=
  if point ≤ 0 then
    ['0', '.'] ++ List.replicate point.natAbs '0' ++ digits
  else
    let whole := digits.take point.toNat
    let fraction := digits.drop point.toNat
    whole ++ List.replicate (point.toNat - digits.length) '0' ++ ['.'] ++
      (if fraction.isEmpty then ['0'] else fraction)

/-- One digit before the point and a power of ten with its sign. -/
def scientific (layout : Layout) (digits : List Char) (point : Int) : List Char :=
  let power := Nat.toDigits 10 (point - 1).natAbs
  let sign := if point - 1 < 0 then '-' else '+'
  let mark := if digits.length ≤ 1 then [] else '.' :: digits.drop 1
  digits.take 1 ++ mark ++ ['e', sign] ++
    List.replicate (layout.exponentWidth - power.length) '0' ++ power

/-- The text of a finite float: the fewest digits that read back, then the layout. -/
def finite (layout : Layout) (v : Binary.Exact) (x : Float) : List Char :=
  let sign := if v.negative then ['-'] else []
  if v.mantissa = 0 then sign ++ ['0', '.', '0']
  else
    let d := Decimal.shortest x.abs
    let point := d.exponent + Decimal.digitCount d.digits
    let digits := significant d
    sign ++
      if layout.lowest ≤ point ∧ point ≤ layout.highest then positional digits point
      else scientific layout digits point

/-- The text of a float in messages: `nan`, `inf` and `-inf` for those without digits. -/
def message (x : Float) : List Char :=
  match Binary.parts? x with
  | some v => finite plain v x
  | none =>
    if x.isNaN then ['n', 'a', 'n']
    else if x < 0 then ['-', 'i', 'n', 'f']
    else ['i', 'n', 'f']

end Layout

end StoryWorld
