import StoryWorld.Fault
import StoryWorld.Text.Blank
import StoryWorld.Text.Digit
import StoryWorld.Text.Lines

/-!
The segments of a dotted path.

A path is cut at its points first. A segment is then either a name without brackets, or an
identifier with one accessor in brackets: a position in decimal digits of any script, or a key in
quotes of either kind.
-/

namespace StoryWorld

/-- What stands in the brackets of a segment. -/
inductive Accessor where
  | position (n : Nat)
  | key (s : String)
  deriving DecidableEq, Repr

/-- One step of a path as it is written. -/
structure Segment where
  name : String
  accessor : Option Accessor
  deriving DecidableEq, Repr

namespace Segment

/-- The first character of an identifier. -/
def startsIdentifier (c : Char) : Bool :=
  ('a' ≤ c && c ≤ 'z') || ('A' ≤ c && c ≤ 'Z') || c == '_'

/-- The further characters of an identifier. -/
def continuesIdentifier (c : Char) : Bool := startsIdentifier c || ('0' ≤ c && c ≤ '9')

/-- Whether a character is a bracket. -/
def isBracket (c : Char) : Bool := c == '[' || c == ']'

/-- Whether a text is the closing bracket of an accessor; a line feed may follow it. -/
def closes (s : List Char) : Bool := s == [']'] || s == [']', '\n']

/-- What a written accessor holds: a run of digits, or the text between two quotes. -/
inductive Index where
  | digits (s : List Char)
  | quoted (s : List Char)
  deriving DecidableEq, Repr

/-- The accessor after its opening bracket. -/
def index? : List Char → Option Index
  | [] => none
  | c :: rest =>
    if c = '\x22' ∨ c = '\x27' then
      match rest.dropWhile (· != c) with
      | _ :: tail => if closes tail then some (.quoted (rest.takeWhile (· != c))) else none
      | [] => none
    else
      let digits := (c :: rest).takeWhile Text.isDigit
      if !digits.isEmpty && closes ((c :: rest).dropWhile Text.isDigit) then some (.digits digits)
      else none

/-- An identifier with an accessor, as it is written. -/
def indexed? (s : List Char) : Option (List Char × Index) :=
  match s with
  | c :: _ =>
    if startsIdentifier c then
      match s.dropWhile continuesIdentifier with
      | '[' :: rest => (index? rest).map fun i => (s.takeWhile continuesIdentifier, i)
      | _ => none
    else none
  | [] => none

/-- The segment that a part of a path denotes; `path` is the whole path, for messages. -/
def parse (raw : List Char) (path : String) : Outcome Segment :=
  if raw.isEmpty then refuse .malformedPath ("Empty segment in path: " ++ path)
  else if !raw.any isBracket then .ok ⟨String.ofList raw, none⟩
  else
    match indexed? raw with
    | none =>
      refuse .malformedPath
        ("Malformed index accessor '" ++ String.ofList raw ++ "' in path: " ++ path)
    | some (name, .quoted s) => .ok ⟨String.ofList name, some (.key (String.ofList s))⟩
    | some (name, .digits s) =>
      match Text.nat? s with
      | some n => .ok ⟨String.ofList name, some (.position n)⟩
      | none => .error .badNumeral

/-- The parts of a path between its points, blanks around the path left out. -/
def split (path : List Char) : List (List Char) := Text.splitAt '.' (Text.trim path)

/-- The segments of several parts, the first that is malformed deciding. -/
def parseAll (path : String) : List (List Char) → Outcome (List Segment)
  | [] => .ok []
  | raw :: raws => do
    let segment ← parse raw path
    let segments ← parseAll path raws
    return segment :: segments

end Segment

end StoryWorld
