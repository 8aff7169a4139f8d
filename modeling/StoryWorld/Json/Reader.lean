import StoryWorld.Value.Basic

/-!
Reading documents written in JSON.

The grammar is the strict one: no byte order mark, no number but a decimal one, no raw control
character and no unpaired surrogate inside a text. Of several values for one key the last one
counts. A `Dialect` says how deep containers may nest and which whole numbers stay whole; the
others become floats.
-/

namespace StoryWorld.Json

/-- How deep containers may nest, and which whole numbers are kept as such. -/
structure Dialect where
  maxDepth : Nat
  fits : Int → Bool

/-- The whole numbers of a stored document: those of 64 bits, with or without a sign. -/
def fitsStored (n : Int) : Bool := -(Binary.twoTo 63 : Int) ≤ n && n < Binary.twoTo 64

/-- Stored documents nest at most 1024 deep. -/
def stored : Dialect := ⟨1024, fitsStored⟩

/-- The blanks between the parts of a document. -/
def isBlank (c : Char) : Bool := c == ' ' || c == '\t' || c == '\n' || c == '\r'

/-- A text without the blanks at its start. -/
def skipBlanks (s : List Char) : List Char := s.dropWhile isBlank

/-- The digits of ASCII, the only ones in a number of a document. -/
def isDigit (c : Char) : Bool := '0' ≤ c && c ≤ '9'

/-- The value of a hexadecimal digit. -/
def hexDigit? (c : Char) : Option Nat :=
  if isDigit c then some (c.toNat - 48)
  else if 'a' ≤ c ∧ c ≤ 'f' then some (c.toNat - 87)
  else if 'A' ≤ c ∧ c ≤ 'F' then some (c.toNat - 55)
  else none

/-- The number that four hexadecimal digits denote. -/
def hex4? (a b c d : Char) : Option Nat := do
  return ((← hexDigit? a) * 16 + (← hexDigit? b)) * 256 + (← hexDigit? c) * 16 + (← hexDigit? d)

/-- The character after a backslash with a letter. -/
def escape? (c : Char) : Option Char :=
  match c with
  | '\x22' => some '\x22'
  | '\\' => some '\\'
  | '/' => some '/'
  | 'b' => some '\x08'
  | 'f' => some '\x0c'
  | 'n' => some '\n'
  | 'r' => some '\r'
  | 't' => some '\t'
  | _ => none

/-- The character of a code point that is given by number, or by two surrogates. A first surrogate
without a second one, and a second one on its own, are refused. -/
def numbered? (n : Nat) (rest : List Char) : Option (Char × List Char) :=
  if 0xd800 ≤ n ∧ n < 0xdc00 then
    match rest with
    | '\\' :: 'u' :: a :: b :: c :: d :: rest =>
      match hex4? a b c d with
      | some low =>
        if 0xdc00 ≤ low ∧ low < 0xe000 then
          some (Char.ofNat (0x10000 + (n - 0xd800) * 0x400 + (low - 0xdc00)), rest)
        else none
      | none => none
    | _ => none
  else if 0xdc00 ≤ n ∧ n < 0xe000 then none
  else some (Char.ofNat n, rest)

/-- One character of a text, written as itself or as an escape. -/
def character? : List Char → Option (Char × List Char)
  | '\\' :: 'u' :: a :: b :: c :: d :: rest => (hex4? a b c d).bind fun n => numbered? n rest
  | '\\' :: c :: rest => (escape? c).map fun e => (e, rest)
  | c :: rest => if c = '\x22' ∨ c = '\\' ∨ c.toNat < 0x20 then none else some (c, rest)
  | [] => none

/-- The characters up to the closing quote. -/
def characters? : Nat → List Char → Option (List Char × List Char)
  | _, '\x22' :: rest => some ([], rest)
  | fuel + 1, s => do
    let (c, rest) ← character? s
    let (cs, rest) ← characters? fuel rest
    return (c :: cs, rest)
  | 0, _ => none

/-- A text after its opening quote. -/
def text? (s : List Char) : Option (String × List Char) :=
  (characters? s.length s).map fun r => (String.ofList r.1, r.2)

/-- The parts of a number as it is written. -/
structure Numeral where
  negative : Bool
  whole : List Char
  fraction : Option (List Char)
  exponent : Option (Bool × List Char)
  deriving DecidableEq, Repr

/-- The number that a run of digits of ASCII denotes. -/
def natOf (digits : List Char) : Nat := digits.foldl (fun n c => 10 * n + (c.toNat - 48)) 0

/-- The part of a number after its point, if there is one. -/
def fraction? : List Char → Option (Option (List Char) × List Char)
  | '.' :: rest =>
    let digits := rest.takeWhile isDigit
    if digits.isEmpty then none else some (some digits, rest.dropWhile isDigit)
  | s => some (none, s)

/-- A sign, `true` for below zero, and what follows it. -/
def sign : List Char → Bool × List Char
  | '-' :: rest => (true, rest)
  | '+' :: rest => (false, rest)
  | s => (false, s)

/-- The power of ten of a number, if there is one. -/
def exponent? : List Char → Option (Option (Bool × List Char) × List Char)
  | c :: rest =>
    if c = 'e' ∨ c = 'E' then
      let signed := sign rest
      let digits := signed.2.takeWhile isDigit
      if digits.isEmpty then none
      else some (some (signed.1, digits), signed.2.dropWhile isDigit)
    else some (none, c :: rest)
  | [] => some (none, [])

/-- The numeral at the start of a text. A zero at its start stands alone. -/
def numeral? (s : List Char) : Option (Numeral × List Char) := do
  let (negative, s) := match s with
    | '-' :: rest => (true, rest)
    | s => (false, s)
  let whole := s.takeWhile isDigit
  if whole.isEmpty ∨ (whole.head? = some '0' ∧ whole.length ≠ 1) then none
  else
    let (fraction, rest) ← fraction? (s.dropWhile isDigit)
    let (exponent, rest) ← exponent? rest
    return (⟨negative, whole, fraction, exponent⟩, rest)

/-- The float nearest to a numeral; `none` if it is too large for any. -/
def Numeral.toFloat? (n : Numeral) : Option Float :=
  let fraction := n.fraction.getD []
  let power : Int := match n.exponent with
    | some (below, digits) => if below then -(natOf digits : Int) else natOf digits
    | none => 0
  Decimal.toFloat? n.negative ⟨natOf (n.whole ++ fraction), power - fraction.length⟩

/-- The number that a numeral denotes: whole if it has neither point nor power and the dialect
keeps it, and else a float. -/
def Numeral.toNumber? (dialect : Dialect) (n : Numeral) : Option Number :=
  let whole : Int := if n.negative then -(natOf n.whole : Int) else natOf n.whole
  if n.fraction.isNone && n.exponent.isNone && dialect.fits whole then some (.int whole)
  else n.toFloat?.map .float

/-- What follows a word that must stand next. -/
def after? (word : List Char) (s : List Char) : Option (List Char) :=
  if word.isPrefixOf s then some (s.drop word.length) else none

mutual

/-- The value at the start of a text, after blanks. -/
def value? (dialect : Dialect) : Nat → Nat → List Char → Option (Value × List Char)
  | 0, _, _ => none
  | fuel + 1, depth, s =>
    match skipBlanks s with
    | '\x22' :: rest => (text? rest).map fun r => (.text r.1, r.2)
    | '[' :: rest =>
      if depth = 0 then none
      else
        match skipBlanks rest with
        | ']' :: rest => some (.list [], rest)
        | rest => (items? dialect fuel (depth - 1) rest).map fun r => (.list r.1, r.2)
    | '\x7b' :: rest =>
      if depth = 0 then none
      else
        match skipBlanks rest with
        | '\x7d' :: rest => some (.mapping [], rest)
        | rest =>
          (members? dialect fuel (depth - 1) rest).map fun r => (.mapping (Table.ofPairs r.1), r.2)
    | 'n' :: rest => (after? ['u', 'l', 'l'] rest).map fun rest => (.null, rest)
    | 't' :: rest => (after? ['r', 'u', 'e'] rest).map fun rest => (.bool true, rest)
    | 'f' :: rest => (after? ['a', 'l', 's', 'e'] rest).map fun rest => (.bool false, rest)
    | s => do
      let (n, rest) ← numeral? s
      let n ← n.toNumber? dialect
      return (.number n, rest)

/-- The items of a list up to its closing bracket; at least one. -/
def items? (dialect : Dialect) : Nat → Nat → List Char → Option (List Value × List Char)
  | 0, _, _ => none
  | fuel + 1, depth, s => do
    let (v, rest) ← value? dialect fuel depth s
    match skipBlanks rest with
    | ']' :: rest => return ([v], rest)
    | ',' :: rest =>
      let (vs, rest) ← items? dialect fuel depth rest
      return (v :: vs, rest)
    | _ => none

/-- The members of an object up to its closing brace; at least one. -/
def members? (dialect : Dialect) :
    Nat → Nat → List Char → Option (List (String × Value) × List Char)
  | 0, _, _ => none
  | fuel + 1, depth, s =>
    match skipBlanks s with
    | '\x22' :: rest => do
      let (key, rest) ← text? rest
      match skipBlanks rest with
      | ':' :: rest =>
        let (v, rest) ← value? dialect fuel depth rest
        match skipBlanks rest with
        | '\x7d' :: rest => return ([(key, v)], rest)
        | ',' :: rest =>
          let (vs, rest) ← members? dialect fuel depth rest
          return ((key, v) :: vs, rest)
        | _ => none
      | _ => none
    | _ => none

end

/-- The document that a text holds, if it holds one and nothing else but blanks. Every value takes
at least one character, and every list of items another, so the fuel is never the limit. -/
def read? (dialect : Dialect) (s : List Char) : Option Value :=
  match value? dialect (2 * s.length + 2) dialect.maxDepth s with
  | some (v, rest) => if (skipBlanks rest).isEmpty then some v else none
  | none => none

end StoryWorld.Json
