import StoryWorld.Fault
import StoryWorld.Text.Blank
import StoryWorld.Text.Digit
import StoryWorld.Text.Lines

/-!
The variables that configure the application.

A file of variables adds to those that are set; it never changes one. Its lines have a name and a
value with an equals sign between them; blank lines, comments and other lines are passed over.
-/

namespace StoryWorld.Config

/-- Variables with their values. -/
abbrev Environment := List (String × String)

/-- The name and value of a line, if it has them: blanks around both are left out, and so are
quotes around the value. -/
def assignment? (line : List Char) : Option (List Char × List Char) :=
  let line := Text.trim line
  if line.isEmpty ∨ line.head? = some '#' then none
  else
    match line.dropWhile (· != '=') with
    | _ :: value =>
      let value := Text.trim value
      let unquoted := ((value.dropWhile (· == '\x22')).reverse.dropWhile (· == '\x22')).reverse
      some (Text.trim (line.takeWhile (· != '=')), unquoted)
    | [] => none

/-- Whether a text holds the one character that no variable can. -/
def hasNul (s : List Char) : Bool := s.contains '\x00'

/-- The environment with a variable that was not set before. A name must not be empty, and neither
name nor value may hold a zero character. -/
def setDefault (env : Environment) (name value : List Char) : Outcome Environment :=
  let key := String.ofList name
  if Table.has key env then .ok env
  else if hasNul name || hasNul value then .error .badNumeral
  else if name.isEmpty then .error .emptyVariable
  else .ok (Table.put key (String.ofList value) env)

/-- The environment with the variables of some lines. -/
def addLines (env : Environment) : List (List Char) → Outcome Environment
  | [] => .ok env
  | line :: rest =>
    match assignment? line with
    | some (name, value) => do
      let env ← setDefault env name value
      addLines env rest
    | none => addLines env rest

/-- The environment with the variables of a file. -/
def addFile (env : Environment) (text : String) : Outcome Environment :=
  addLines env (Text.lines text.toList)

/-- Decimal digits with single underscores between them, without the underscores. -/
def digitsOf? : List Char → Option (List Char)
  | [] => none
  | [c] => if Text.isDigit c then some [c] else none
  | c :: '_' :: rest => if Text.isDigit c then (digitsOf? rest).map (c :: ·) else none
  | c :: rest => if Text.isDigit c then (digitsOf? rest).map (c :: ·) else none

/-- The whole number that a text denotes, with white space around it and a sign. -/
def whole? (s : List Char) : Option Int :=
  let s := Text.trimSpaces s
  let (negative, rest) := match s with
    | '-' :: rest => (true, rest)
    | '+' :: rest => (false, rest)
    | rest => (false, rest)
  (digitsOf? rest).bind fun digits =>
    (Text.nat? digits).map fun n => if negative then -(n : Int) else n

end StoryWorld.Config
