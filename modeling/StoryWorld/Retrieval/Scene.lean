import StoryWorld.Retrieval.Subgraph

/-!
The context of a scene and of a thread of the plot.
-/

namespace StoryWorld

/-- A thread with the characters and secrets that it is about. -/
structure ThreadContext where
  thread : Option Value
  characters : List String
  secrets : List Value

namespace ThreadContext

/-- The character that a path is about, if it is about one. -/
def characterOf? (path : String) : Option String :=
  match Text.splitAt '.' path.toList with
  | root :: id :: _ =>
    if root = "characters".toList ∧ !id.isEmpty then some (String.ofList id) else none
  | _ => none

/-- The characters that some paths are about, each once. -/
def charactersOf (found : List String) : List Value → Outcome (List String)
  | [] => .ok found
  | .text path :: rest =>
    match characterOf? path with
    | some id => charactersOf (if found.contains id then found else found ++ [id]) rest
    | none => charactersOf found rest
  | _ :: _ => .error .noField

/-- The context of a thread. -/
def ofId (story : Story) (id : Value) : Outcome ThreadContext := do
  match ← story.thread? id with
  | none => return ⟨none, [], []⟩
  | some thread =>
    let paths ← (← thread.get "related_state_paths").iterate
    let characters ← charactersOf [] paths
    let secrets ← (← thread.get "related_secrets").iterate
    return ⟨some thread, characters, secrets⟩

end ThreadContext

/-- All that a scene needs: what it is told, who takes part, where it is, and its threads. -/
structure SceneContext where
  subgraph : Subgraph
  characters : List Value
  location : Value
  threads : List Value

namespace SceneContext

/-- What is found under some ids, ids without anything left out. -/
def findAll (find : Value → Outcome (Option Value)) : List Value → Outcome (List Value)
  | [] => .ok []
  | id :: rest => do
    let own ← find id
    let others ← findAll find rest
    return own.toList ++ others

/-- The location of an id; one that the story does not know has only its id. -/
def place (story : Story) (id : Value) : Outcome Value := do
  match ← story.location? id with
  | some location => return location
  | none => Schema.read .location (.mapping [("id", id)])

/-- The context of a scene, with the lines that are written. -/
def build (story : Story) (participants threads : List Value) (location : Value)
    (limits : Limits) : List Line × Outcome SceneContext :=
  let found : Outcome (List Value × List Value × Value) := do
    let characters ← findAll story.character? participants
    let threads ← findAll story.thread? threads
    let place ← place story location
    return (characters, threads, place)
  match found with
  | .error fault => ([], .error fault)
  | .ok (characters, threads, place) =>
    let (lines, subgraph) := Subgraph.retrieve story participants limits
    (lines, subgraph.map fun g => ⟨g, characters, place, threads⟩)

end SceneContext

end StoryWorld
