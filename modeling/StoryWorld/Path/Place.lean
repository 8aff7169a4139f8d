import StoryWorld.Path.Assign
import StoryWorld.Path.Locate
import StoryWorld.Story.Basic
import StoryWorld.Text.Optional

/-!
Places of a story: a root, the steps to what holds the place, and the last step.

A dotted path resolves to a place or is refused. Reading and writing go through the place. Paths
that start with a role are written out in full by `expand`, if the role is bound.
-/

namespace StoryWorld

/-- A place of a story. -/
structure Place where
  root : Root
  before : List Step
  last : Step
  deriving DecidableEq, Repr

namespace Place

/-- The place at the end of a sequence of steps from a root. -/
def ofSteps (root : Root) (steps : List Step) : Option Place :=
  match steps.getLast? with
  | some last => some ⟨root, steps.dropLast, last⟩
  | none => none

/-- The place that a path leads to. -/
def resolve (story : Story) (path : String) : Outcome Place :=
  match Segment.split path.toList with
  | first :: second :: rest =>
    let name := String.ofList first
    match Root.ofName? name with
    | none => refuse .unknownRoot ("Unknown root '" ++ name ++ "' in path: " ++ path)
    | some root => do
      let segments ← Segment.parseAll path (second :: rest)
      let steps ← Locate.locate path (story.root root) segments
      match ofSteps root steps with
      | some place => return place
      | none => refuse .malformedPath ("Path needs at least one field after its root: " ++ path)
  | _ => refuse .malformedPath ("Path needs a root and a field: " ++ path)

/-- The value that holds a place. -/
def container (story : Story) (place : Place) : Outcome Value :=
  (story.root place.root).follow place.before

/-- The value at a place. -/
def read (story : Story) (place : Place) : Outcome Value := do
  let w ← place.container story
  w.read place.last

/-- The story with another value in the place's container. -/
def setContainer (story : Story) (place : Place) (w : Value) : Story :=
  story.setRoot place.root ((story.root place.root).replace place.before w)

/-- The refusal of a value at a path that the entity there reports problems with, if the value can
be shown in it. Other failures stay as they are. -/
def rejection (path : String) (value : Value) : Fault → Fault
  | .invalid report =>
    if value.holdsLongNumeral then .badNumeral
    else
      .refused .typeMismatch
        ("Value " ++ value.quotedText ++ " rejected at " ++ path ++ ": " ++ report.summary)
  | fault => fault

/-- Writes a value at a place: the story afterwards, and whether it worked. -/
def write (story : Story) (place : Place) (path : String) (value : Value) : Story × Outcome Unit :=
  match place.container story with
  | .error fault => (story, .error fault)
  | .ok w =>
    let (w, outcome) := Assign.assign w place.last value
    (place.setContainer story w, outcome.mapError (rejection path value))

/-- The story with another value at a place, whatever the entity there says. -/
def put (story : Story) (place : Place) (value : Value) : Story :=
  story.setRoot place.root
    ((story.root place.root).replace (place.before ++ [place.last]) value)

/-- The kind of the items of the list at a place, if the field there is declared as a list of
entities. -/
def itemKind? (story : Story) (place : Place) : Option Kind :=
  match place.container story, place.last with
  | .ok (.entity kind _), .slot (.field name) =>
    match kind.field? name with
    | some (_, .list (.record item _)) => some item
    | _ => none
  | _, _ => none

end Place

namespace Story

/-- Reads the value that a path leads to. -/
def readPath (story : Story) (path : String) : Outcome Value := do
  let place ← Place.resolve story path
  place.read story

/-- Writes a value where a path leads to. -/
def writePath (story : Story) (path : String) (value : Value) : Story × Outcome Unit :=
  match Place.resolve story path with
  | .ok place => place.write story path value
  | .error fault => (story, .error fault)

end Story

/-- The ids that stand for the roles of a scene; an unbound role has none, or an empty one. -/
structure Bindings where
  actor : Option String
  target : Option String
  relationship : Option String
  deriving DecidableEq, Repr

namespace Bindings

/-- The rest of a path after a role and its point, if it starts with them. -/
def after? (role : String) (path : String) : Option (List Char) :=
  let start := role.toList ++ ['.']
  if start.isPrefixOf path.toList then some (path.toList.drop start.length) else none

/-- A path that starts with a bound role, written out from its root. Other paths stay as they
are. -/
def expand (bindings : Bindings) (path : String) : String :=
  let roles := [("actor", "characters", bindings.actor), ("target", "characters", bindings.target),
    ("relationship", "relationships", bindings.relationship)]
  let expanded := roles.findSome? fun (role, root, id) =>
    match after? role path, Text.present? id with
    | some rest, some id => some (root ++ "." ++ id ++ "." ++ String.ofList rest)
    | _, _ => none
  expanded.getD path

end Bindings

end StoryWorld
