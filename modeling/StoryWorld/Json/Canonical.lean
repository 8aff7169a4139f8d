import StoryWorld.Json.Reader
import StoryWorld.Text.Quoted
import StoryWorld.Text.Lines

/-!
The canonical written form of a document.

There are no blanks, the keys of an object stand in the order of their code points, and a text is
escaped only where it has to be. Floats that are no number are written `null`. What cannot be
written is refused: a whole number beyond 64 bits, an entity, and containers nested too deep.
-/

namespace StoryWorld.Json

/-- Written documents nest at most this deep. -/
def writeDepth : Nat := 254

/-- One character of a text as it is written. -/
def writeChar (c : Char) : List Char :=
  match c with
  | '\x22' => ['\\', '\x22']
  | '\\' => ['\\', '\\']
  | '\x08' => ['\\', 'b']
  | '\t' => ['\\', 't']
  | '\n' => ['\\', 'n']
  | '\x0c' => ['\\', 'f']
  | '\r' => ['\\', 'r']
  | c => if c.toNat < 0x20 then '\\' :: 'u' :: Text.hexDigits 4 c.toNat else [c]

/-- A text in quotes. -/
def writeText (s : List Char) : List Char := '\x22' :: (s.flatMap writeChar ++ ['\x22'])

/-- A number: a whole one with its digits, a float with the fewest that read back. -/
def writeNumber? : Number → Option (List Char)
  | .int n => if fitsStored n then some (toString n).toList else none
  | .float x =>
    match Binary.parts? x with
    | some v => some (Layout.finite .compact v x)
    | none => some ['n', 'u', 'l', 'l']

/-- The order of keys: by code point. -/
def keyLe (a b : String × List Char) : Bool := decide ¬ b.1 < a.1

/-- A member of an object. -/
def writeMember (m : String × List Char) : List Char := writeText m.1.toList ++ ':' :: m.2

mutual

/-- The canonical form of a value, or `none` if it has none. -/
def write? (depth : Nat) : Value → Option (List Char)
  | .null => some ['n', 'u', 'l', 'l']
  | .bool true => some ['t', 'r', 'u', 'e']
  | .bool false => some ['f', 'a', 'l', 's', 'e']
  | .number n => writeNumber? n
  | .text s => some (writeText s.toList)
  | .list xs =>
    if depth = 0 then none
    else
      (writeItems? (depth - 1) xs).map fun parts =>
        '[' :: (Text.join [','] parts ++ [']'])
  | .mapping es =>
    if depth = 0 then none
    else
      (writeEntries? (depth - 1) es).map fun parts =>
        '\x7b' :: (Text.join [','] ((parts.mergeSort keyLe).map writeMember) ++ ['\x7d'])
  | .entity _ _ => none
  | .builtin _ => none

/-- The canonical forms of the items of a list. -/
def writeItems? (depth : Nat) : List Value → Option (List (List Char))
  | [] => some []
  | x :: xs => do
    let part ← write? depth x
    let parts ← writeItems? depth xs
    return part :: parts

/-- The entries of a mapping with the canonical forms of their values. -/
def writeEntries? (depth : Nat) : List (String × Value) → Option (List (String × List Char))
  | [] => some []
  | (k, x) :: es => do
    let part ← write? depth x
    let parts ← writeEntries? depth es
    return (k, part) :: parts

end

/-- The canonical text of a document, or `none` if it cannot be written. -/
def canonical? (v : Value) : Option (List Char) := write? writeDepth v

end StoryWorld.Json
