import StoryWorld.Schema.Verdict
import StoryWorld.Json.Reader
import StoryWorld.Text.Blank
import StoryWorld.Text.Digit
import StoryWorld.Text.Lines

/-!
Numbers and truth values as documents may give them.

A field for a whole number also takes a truth value, a float without a fraction, and a text that
holds a whole number; a field for a float takes any number and a text that holds one; a field for a
truth value takes 0, 1 and a few words.
-/

namespace StoryWorld.Numeral

/-- What a text says as a whole number. -/
inductive Reading where
  | value (n : Int)
  | tooLong
  | none
  deriving DecidableEq, Repr

/-- A whole number in its plain form: digits, with at most one minus sign before them and no
needless zero at the start. The sign counts for the length, and a run of digits that is too long is
told before what follows it. -/
def plain (s : List Char) : Reading :=
  let (negative, rest) := match s with
    | '-' :: rest => (true, rest)
    | rest => (false, rest)
  let digits := rest.takeWhile Json.isDigit
  if digits.isEmpty then .none
  else if digits.head? = some '0' ∧ digits.length ≠ 1 then .none
  else if Text.numeralLimit < digits.length + (if negative then 1 else 0) then .tooLong
  else if digits.length ≠ rest.length then .none
  else
    let n : Int := Json.natOf digits
    .value (if negative then -n else n)

/-- The text without underscores, if it has any and each stands between other characters. -/
def withoutUnderscores? (s : List Char) : Option (List Char) :=
  let single := !Text.occursIn ['_', '_'] s
  if s.contains '_' && s.head? != some '_' && s.getLast? != some '_' && single then
    some (s.filter (· != '_'))
  else none

/-- The rest of a text after zeros at its start, the last of them kept before a point. Underscores
between the zeros go with them. -/
def afterZeros (last : Char) : List Char → Option (List Char)
  | [] => some [last]
  | c :: rest =>
    if c = '0' ∨ c = '_' then afterZeros c rest
    else if c = '.' then some (last :: c :: rest)
    else if Json.isDigit c ∨ c = '-' then some (c :: rest)
    else none

/-- A text without needless zeros at its start. Only a text that starts with a digit or a minus
sign can be a number. -/
def withoutZeros? : List Char → Option (List Char)
  | [] => none
  | c :: rest =>
    if c = '0' then afterZeros c rest
    else if Json.isDigit c ∨ c = '-' then some (c :: rest)
    else none

/-- A text without a fraction of one zero or more. -/
def withoutZeroFraction (s : List Char) : List Char :=
  match s.dropWhile (· != '.') with
  | _ :: c :: rest =>
    if (c :: rest).all (· == '0') then s.takeWhile (· != '.') else s
  | _ => s

/-- A text without a plus sign at its start, unless a minus sign follows it. -/
def withoutPlus (s : List Char) : List Char :=
  match s with
  | '+' :: rest => if rest.head? = some '-' then s else rest
  | s => s

/-- The text of a whole number in a form nearer to the plain one: without the white space around
it, a plus sign, zeros at the start, a fraction of zeros, and underscores inside. A minus sign at
the start is set aside meanwhile. -/
def cleaned? (s : List Char) : Option (List Char) :=
  let s := withoutPlus (Text.trimSpaces s)
  let (negative, s) := match s with
    | '-' :: rest => (true, rest)
    | s => (false, s)
  (withoutZeros? s).map fun s =>
    let s := withoutZeroFraction s
    let s := if negative then '-' :: s else s
    (withoutUnderscores? s).getD s

/-- What a text says as a whole number: it may have white space around it, a sign, zeros at the
start, underscores between digits, and a fraction of zeros. Only a text that is plain as it stands
is told to be too long. -/
def whole (s : List Char) : Reading :=
  match plain s with
  | .none =>
    match (cleaned? s).map plain with
    | some (.value n) => .value n
    | _ => .none
  | reading => reading

/-- A float of words: infinity or no number, whatever the case of the letters. -/
def word? (s : List Char) : Option Float :=
  let word := s.map Char.toLower
  if word = "inf".toList ∨ word = "infinity".toList then some Binary.infinity
  else if word = "nan".toList then some Binary.undefined
  else none

/-- A float in digits: a whole part or a fraction at least, and perhaps a power of ten. -/
def digits? (negative : Bool) (s : List Char) : Option Float := do
  let whole := s.takeWhile Json.isDigit
  let rest := s.dropWhile Json.isDigit
  let fraction := match rest with
    | '.' :: rest => rest.takeWhile Json.isDigit
    | _ => []
  let rest := match rest with
    | '.' :: rest => rest.dropWhile Json.isDigit
    | rest => rest
  if whole.isEmpty && fraction.isEmpty then none
  else
    let (exponent, rest) ← Json.exponent? rest
    if !rest.isEmpty then none
    else
      let x := Json.Numeral.toFloat? ⟨negative, whole, some fraction, exponent⟩
      return x.getD (if negative then -Binary.infinity else Binary.infinity)

/-- A float as a text gives it, with a sign perhaps. -/
def signed? (s : List Char) : Option Float :=
  let (negative, rest) := Json.sign s
  match word? rest with
  | some x => some (if negative then -x else x)
  | none => digits? negative rest

/-- What a text says as a float: with white space around it, or with underscores inside. -/
def real? (s : List Char) : Option Float :=
  match signed? (Text.trimSpaces s) with
  | some x => some x
  | none => (withoutUnderscores? s).bind signed?

/-- A whole number from a float: its fraction has to be zero and its size below 64 bits. -/
def wholeOfFloat (x : Float) : Verdict Int :=
  match Binary.parts? x with
  | none => .reject .wholeFinite
  | some v =>
    let (n, cut) := Binary.truncate v
    if cut then .reject .wholeFraction
    else if -(Binary.twoTo 63 : Int) < n ∧ n < Binary.twoTo 63 then .accepted n
    else .reject .wholeSize

/-- A value as a whole number. -/
def toWhole : Value → Verdict Int
  | .number (.int n) => .accepted n
  | .bool b => .accepted (if b then 1 else 0)
  | .number (.float x) => wholeOfFloat x
  | .text s =>
    match whole s.toList with
    | .value n => .accepted n
    | .tooLong => .reject .wholeSize
    | .none => .reject .wholeNumeral
  | _ => .reject .wholeType

/-- A value as a float. -/
def toReal : Value → Verdict Float
  | .number (.float x) => .accepted x
  | .number (.int n) =>
    match Binary.ofInt? n with
    | some x => .accepted x
    | none => .reject .realType
  | .bool b => .accepted (if b then 1.0 else 0.0)
  | .text s =>
    match real? s.toList with
    | some x => .accepted x
    | none => .reject .realNumeral
  | _ => .reject .realType

/-- The words for the two truth values, in small letters. -/
def truthWords : List (String × Bool) := [
  ("0", false), ("off", false), ("f", false), ("false", false), ("n", false), ("no", false),
  ("1", true), ("on", true), ("t", true), ("true", true), ("y", true), ("yes", true)]

/-- A whole number as a truth value. -/
def truthOfWhole (n : Int) : Verdict Bool :=
  if n = 0 then .accepted false
  else if n = 1 then .accepted true
  else .reject .truthNumeral

/-- A float as a truth value, if it is a whole number of 64 bits. -/
def truthOfFloat (x : Float) : Verdict Bool :=
  match wholeOfFloat x with
  | .accepted n => truthOfWhole n
  | _ => .reject .truthType

/-- A value as a truth value. -/
def toTruth : Value → Verdict Bool
  | .bool b => .accepted b
  | .text s =>
    match Table.get? (String.ofList (s.toList.map Char.toLower)) truthWords with
    | some b => .accepted b
    | none => .reject .truthNumeral
  | .number (.int n) =>
    if -(Binary.twoTo 63 : Int) ≤ n ∧ n < Binary.twoTo 63 then truthOfWhole n
    else
      match Binary.ofInt? n with
      | some x => truthOfFloat x
      | none => .reject .truthType
  | .number (.float x) => truthOfFloat x
  | _ => .reject .truthType

/-- A value as a number of either type: one that is a number already is kept as it is. -/
def toNumber : Value → Verdict Number
  | .number n => .accepted n
  | v =>
    match toWhole v with
    | .accepted n => .accepted (.int n)
    | whole =>
      match toReal v with
      | .accepted x => .accepted (.float x)
      | real =>
        ((whole.marked "int").both (fun _ x => Number.float x) (real.marked "float"))

end StoryWorld.Numeral
