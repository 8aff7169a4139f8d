import StoryWorld.Text.Optional

/-!
The journal: lines about what was done, each with a level and the part of the program it is from.
-/

namespace StoryWorld

/-- The levels of lines that are written. -/
inductive Level where
  | debug | info | warning
  deriving DecidableEq, Repr

namespace Level

/-- The name of a level. -/
def name : Level → String
  | debug => "DEBUG"
  | info => "INFO"
  | warning => "WARNING"

/-- How serious a level is. -/
def weight : Level → Nat
  | debug => 10
  | info => 20
  | warning => 30

/-- The names of the thresholds that a journal may have, with how serious a line has to be. -/
def thresholds : List (String × Nat) := [
  ("TRACE", 5), ("DEBUG", 10), ("INFO", 20), ("SUCCESS", 25), ("WARNING", 30), ("ERROR", 40),
  ("CRITICAL", 50)]

end Level

/-- A line of the journal. A scene or path that is not known is written as a dash. -/
structure Line where
  level : Level
  component : String
  scene : Option String
  path : Option String
  message : String
  deriving DecidableEq, Repr

namespace Line

/-- Whether a line is serious enough for a journal with the given threshold. -/
def passes (threshold : Nat) (line : Line) : Bool := threshold ≤ line.level.weight

/-- A text filled up with blanks to eight characters. -/
def padded (s : String) : String := s ++ String.ofList (List.replicate (8 - s.length) ' ')

/-- The text of a line. -/
def text (line : Line) : String :=
  padded line.level.name ++ " | trace=- component=" ++ line.component ++ " scene=" ++
    Text.orDash line.scene ++ " path=" ++ Text.orDash line.path ++ " | " ++ line.message

/-- The texts of the lines that a journal with the given threshold takes. -/
def texts (threshold : Nat) (lines : List Line) : List String :=
  (lines.filter (passes threshold)).map text

end Line

end StoryWorld
