import StoryWorld.Schema.Validate
import StoryWorld.Schema.Document

/-!
A story: its eight roots and whatever else its document had.

Every path starts at a root, and nothing outside the roots is ever changed.
-/

namespace StoryWorld

/-- The roots that a path may start from. -/
inductive Root where
  | world | characters | relationships | assets | secrets | threads | factions | constraints
  deriving DecidableEq, Repr

namespace Root

/-- Every root. -/
def all : List Root :=
  [world, characters, relationships, assets, secrets, threads, factions, constraints]

/-- The name of a root. -/
def name : Root → String
  | world => "world"
  | characters => "characters"
  | relationships => "relationships"
  | assets => "assets"
  | secrets => "secrets"
  | threads => "threads"
  | factions => "factions"
  | constraints => "constraints"

/-- The root of a name. -/
def ofName? (s : String) : Option Root := all.find? fun root => root.name == s

@[simp] theorem ofName?_name (root : Root) : ofName? root.name = some root := by
  cases root <;> decide

theorem name_of_ofName? {s : String} {root : Root} (h : ofName? s = some root) :
    root.name = s := by
  simpa using List.find?_some h

theorem name_injective {r s : Root} (h : r.name = s.name) : r = s :=
  Option.some.inj ((ofName?_name r).symm.trans ((congrArg _ h).trans (ofName?_name s)))

end Root

/-- The whole state of a story. -/
structure Story where
  world : Value
  characters : Value
  relationships : Value
  secrets : Value
  assets : Value
  threads : Value
  factions : Value
  constraints : Value
  extra : List (String × Value)

namespace Story

/-- The value of a root. -/
def root (story : Story) : Root → Value
  | .world => story.world
  | .characters => story.characters
  | .relationships => story.relationships
  | .assets => story.assets
  | .secrets => story.secrets
  | .threads => story.threads
  | .factions => story.factions
  | .constraints => story.constraints

/-- The story with another value of a root. -/
def setRoot (story : Story) (root : Root) (v : Value) : Story :=
  match root with
  | .world => { story with world := v }
  | .characters => { story with characters := v }
  | .relationships => { story with relationships := v }
  | .assets => { story with assets := v }
  | .secrets => { story with secrets := v }
  | .threads => { story with threads := v }
  | .factions => { story with factions := v }
  | .constraints => { story with constraints := v }

@[simp] theorem root_setRoot_self (story : Story) (r : Root) (v : Value) :
    (story.setRoot r v).root r = v := by
  cases r <;> rfl

theorem root_setRoot_of_ne (story : Story) {r s : Root} (h : s ≠ r) (v : Value) :
    (story.setRoot r v).root s = story.root s := by
  cases r <;> cases s <;> first | rfl | exact absurd rfl h

@[simp] theorem setRoot_root (story : Story) (r : Root) : story.setRoot r (story.root r) = story := by
  cases r <;> rfl

@[simp] theorem setRoot_setRoot (story : Story) (r : Root) (v w : Value) :
    (story.setRoot r v).setRoot r w = story.setRoot r w := by
  cases r <;> rfl

/-- The story of an entity that was read as one. -/
def ofEntity (v : Value) : Story where
  world := v.field "world"
  characters := v.field "characters"
  relationships := v.field "relationships"
  secrets := v.field "secrets"
  assets := v.field "assets"
  threads := v.field "threads"
  factions := v.field "factions"
  constraints := v.field "constraints"
  extra := match v with
    | .entity _ slots => Value.extras slots
    | _ => []

/-- The story as one entity. -/
def toEntity (story : Story) : Value :=
  .entity .worldState
    ([(.field "world", story.world), (.field "characters", story.characters),
      (.field "relationships", story.relationships), (.field "secrets", story.secrets),
      (.field "assets", story.assets), (.field "threads", story.threads),
      (.field "factions", story.factions), (.field "constraints", story.constraints)] ++
      story.extra.map fun e => (.extra e.1, e.2))

/-- Reads a document as a story. -/
def read (document : Value) : Outcome Story := (Schema.read .worldState document).map ofEntity

/-- The story as a document, as it is in memory. -/
def dump (story : Story) : Value := story.toEntity.dump

end Story

end StoryWorld
