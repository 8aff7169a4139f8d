import StoryWorld.Expression.Tree
import StoryWorld.Path.Locate
import StoryWorld.Path.Place
import StoryWorld.Story.Query

/-!
What the paths of an expression start from.

A context binds the roles of a scene to entities. With the story at hand, a character also has
values derived from the rest of the story: where it is, the powers of its offices, and the secrets
it knows.
-/

namespace StoryWorld

/-- The entities that the roles stand for, and the story they are from. `onePerson` says that actor
and target are not only equal, but one and the same character. -/
structure Context where
  actor : Option Value
  target : Option Value
  world : Option Value
  relationship : Option Value
  story : Option Story
  onePerson : Bool

namespace Context

/-- The entity of a role, if the id is bound and there is one. -/
def bound (find : Value → Outcome (Option Value)) (id : Option String) : Outcome (Option Value) :=
  match Text.present? id with
  | some id => find (.text id)
  | none => .ok none

/-- The tie between two characters, if both are there. -/
def between (story : Story) : Option Value → Option Value → Outcome (Option Value)
  | some actor, some target => do
    let source ← actor.get "id"
    let goal ← target.get "id"
    story.relationship? source goal
  | _, _ => .ok none

/-- The context of a story for bound roles. The tie is the one that is bound by id, or else the one
from the actor to the target. -/
def ofStory (story : Story) (bindings : Bindings) : Outcome Context := do
  let actor ← bound story.character? bindings.actor
  let target ← bound story.character? bindings.target
  let relationship ←
    if (Text.present? bindings.relationship).isSome then
      bound story.relationshipById? bindings.relationship
    else between story actor target
  let onePerson := bindings.actor == bindings.target
  return ⟨actor, target, some story.world, relationship, some story, onePerson⟩

/-- What a role is bound to, for the roles that there are. -/
def role? (context : Context) (root : String) : Option (Option Value) :=
  if root = "actor" then some context.actor
  else if root = "target" then some context.target
  else if root = "world" then some context.world
  else if root = "relationship" then some context.relationship
  else none

/-- The entity that a path starts from. -/
def roleValue (context : Context) (root : String) : Outcome Value :=
  match context.role? root with
  | none => refuse .unknownContextRoot ("Unknown context: " ++ root)
  | some none =>
    refuse .contextNotAvailable ("Context '" ++ root ++ "' is not available")
  | some (some v) => .ok v

/-- Where a character is. -/
def locationOf (character : Value) : Outcome Value := do
  let status ← character.get "status"
  status.get "location_id"

/-- The powers of a character's offices, each marked as a power. -/
def officesOf (context : Context) (character : Value) : Outcome Value :=
  match context.story with
  | none => .ok (.list [])
  | some story => do
    let powers ← story.officePowers (← character.get "id")
    return .list (powers.map fun power => .text ("powers." ++ power.shownText))

/-- The ids of the secrets that a character knows. -/
def knowledgeOf (context : Context) (character : Value) : Outcome Value :=
  match context.story with
  | none => .ok (.list [])
  | some story => do
    let secrets ← story.secretsKnownBy (← character.get "id")
    return .list (← secrets.mapM (Value.get "id"))

/-- The value that is derived for a path, if it is one of the derived ones: a single name after the
actor or the target. -/
def derived (context : Context) (ref : PathRef) (character : Value) : Outcome (Option Value) :=
  if ref.root ≠ "actor" ∧ ref.root ≠ "target" then .ok none
  else
    match ref.segments with
    | [⟨"location", none⟩] => (locationOf character).map some
    | [⟨"offices", none⟩] => (officesOf context character).map some
    | [⟨"knowledge", none⟩] => (knowledgeOf context character).map some
    | _ => .ok none

/-- The name of the role that an entity is told by: the actor's, if the target is the same one. -/
def roleLabel (context : Context) (root : String) : String :=
  if root = "target" && context.onePerson then "actor" else root

/-- The value that a path of an expression stands for. -/
def resolve (context : Context) (ref : PathRef) : Outcome Value := do
  let start ← context.roleValue ref.root
  match ← derived context ref start with
  | some v => return v
  | none =>
    if ref.segments.isEmpty then return start
    else
      let steps ← Locate.locate ref.text start ref.segments
      let owner := context.roleLabel ref.root :: steps.dropLast.map Step.labelText
      return (← start.follow steps).ownedAt owner

end Context

end StoryWorld
