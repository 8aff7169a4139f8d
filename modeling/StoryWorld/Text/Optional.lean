/-!
Texts that may be missing.

An empty text says as little as a missing one.
-/

namespace StoryWorld.Text

/-- A text that is there and not empty. -/
def present? : Option String → Option String
  | some s => if s.isEmpty then none else some s
  | none => none

/-- A text that is there and not empty, or a dash. -/
def orDash (s : Option String) : String := (present? s).getD "-"

end StoryWorld.Text
