import StoryWorld.Config.Environment
import StoryWorld.Config.Merge
import StoryWorld.Schema.Validate

/-!
Loading the configuration.

The layers are, from the bottom: the default document, the one of the profile, the explicit one, and
the overrides. Two variables come on top of all of them: the level of messages and the number of
hops.
-/

namespace StoryWorld.Config

/-- Where the configuration comes from. A document that is missing counts as an empty one. -/
structure Sources where
  default : Option Value
  profile : Option Value
  explicit : Option Value
  overrides : Option Value
  environment : Environment
  file : Option String

/-- The variable that sets the level of messages. -/
def levelVariable : String := "WORLD_ENGINE_LOG_LEVEL"

/-- The variable that sets the number of hops. -/
def hopsVariable : String := "WORLD_ENGINE_MAX_HOPS"

/-- The value of a variable that is set and not empty. -/
def setting? (env : Environment) (name : String) : Option String :=
  (Table.get? name env).bind fun s => if s.isEmpty then none else some s

/-- A configuration with an entry in one of its sections. Only a mapping can take the entry. -/
def setIn (part : String) (key : String) (value : Value) (config : List (String × Value)) :
    Outcome (List (String × Value)) :=
  match (Table.get? part config).getD (.mapping []) with
  | .mapping es => .ok (Table.put part (.mapping (Table.put key value es)) config)
  | _ => .error .wrongType

/-- A configuration with the level that a variable sets. -/
def setLevel (env : Environment) (config : List (String × Value)) :
    Outcome (List (String × Value)) :=
  match setting? env levelVariable with
  | some level => setIn "app" "log_level" (.text level) config
  | none => .ok config

/-- A configuration with the number of hops that a variable sets. -/
def setHops (env : Environment) (config : List (String × Value)) :
    Outcome (List (String × Value)) :=
  match setting? env hopsVariable with
  | some text =>
    match whole? text.toList with
    | some n => setIn "retriever" "max_hops" (.int n) config
    | none => .error .badNumeral
  | none => .ok config

/-- The configuration before it is read. -/
def assemble (s : Sources) : Outcome (List (String × Value)) := do
  let env ← match s.file with
    | some text => addFile s.environment text
    | none => .ok s.environment
  let config ← layers [] [s.default, s.profile, s.explicit, s.overrides]
  let config ← setLevel env config
  setHops env config

/-- The configuration, as an entity. -/
def load (s : Sources) : Outcome Value := do
  let config ← assemble s
  Schema.read .appConfigRoot (.mapping config)

end StoryWorld.Config
