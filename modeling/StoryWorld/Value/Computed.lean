import StoryWorld.Value.Order

/-!
What entities compute from their fields, under names of their own.

A computed value hides an extra field of the same name. Two lists have their items in common with
the list that they are put together to, so a change inside an item of the latter shows in them.
-/

namespace StoryWorld.Value

/-- The text of a tie: where it starts, an arrow, where it ends. -/
def tieText (tie : Value) : Outcome String := do
  let source ← tie.get "from_"
  let target ← tie.get "to"
  return source.shownText ++ "->" ++ target.shownText

/-- How much a secret matters: its legal value and the damage it would do, together. -/
def relevance (secret : Value) : Outcome Value := do
  let stats ← secret.get "stats"
  let legal ← stats.get "legal_value"
  let damage ← stats.get "public_damage"
  legal.plus damage

/-- Whether a thread is open and has not moved on for as long as it may. -/
def isUrgent (thread : Value) : Outcome Bool := do
  let status ← thread.get "status"
  if status.equal (.text "open") then
    let waited ← thread.get "episodes_since_progress"
    let cadence ← thread.get "advance_cadence"
    let limit ← cadence.get "max_episodes_without_progress"
    waited.holds .ge limit
  else return false

/-- The names of what an entity of a kind computes from its fields. -/
def computedNames : Kind → List String
  | .relationship => ["key"]
  | .secret => ["relevance_score"]
  | .thread => ["is_urgent"]
  | _ => []

/-- The value that an entity computes under a name. -/
def compute (name : String) (v : Value) : Outcome Value :=
  if name = "key" then (tieText v).map text
  else if name = "relevance_score" then relevance v
  else (isUrgent v).map bool

/-- What looking up the computed value of a name gives. If the fields are not of the form that it
is computed from, an extra field of the name stands in for it. -/
def computed (v : Value) (name : String) : Outcome Value :=
  match compute name v, v.extra? name with
  | .error .noField, some x => .ok x
  | outcome, _ => outcome

/-- Fails if something else was attached to an entity under the name of the operation that is
called: what is attached is no operation. -/
def calling (v : Value) (operation : String) : Outcome Unit :=
  match v with
  | entity _ slots =>
    if Table.has (.attached operation) slots then .error .wrongType else .ok ()
  | _ => .ok ()

/-- A secret with other items in the lists that its relevance puts together. -/
def shareItems (secret : Value) (items : List Value) : Value :=
  let stats := secret.field "stats"
  let count := (stats.field "legal_value").items.length
  let stats := stats.setField "legal_value" (.list (items.take count))
  secret.setField "stats" (stats.setField "public_damage" (.list (items.drop count)))

end StoryWorld.Value
