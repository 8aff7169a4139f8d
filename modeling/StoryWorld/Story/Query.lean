import StoryWorld.Story.Basic
import StoryWorld.Value.Computed

/-!
Looking things up in a story.

Ids are compared by value, and the first match counts. A list is searched only as far as needed, so
something odd behind a match does no harm, while one before it makes the search fail.
-/

namespace StoryWorld.Story

/-- The first item for which a test holds. -/
def findItem (test : Value → Outcome Bool) : List Value → Outcome (Option Value)
  | [] => .ok none
  | x :: xs => do
    if ← test x then return some x else findItem test xs

/-- The items for which a test holds. -/
def selectItems (test : Value → Outcome Bool) : List Value → Outcome (List Value)
  | [] => .ok []
  | x :: xs => do
    let keep ← test x
    let rest ← selectItems test xs
    return if keep then x :: rest else rest

/-- Whether a field of an item is equal to a value. -/
def fieldIs (name : String) (wanted : Value) (item : Value) : Outcome Bool :=
  (item.get name).map fun v => v.equal wanted

/-- The character of an id. -/
def character? (story : Story) (id : Value) : Outcome (Option Value) :=
  findItem (fieldIs "id" id) story.characters.items

/-- The characters of a faction. -/
def charactersByFaction (story : Story) (faction : Value) : Outcome (List Value) :=
  selectItems (fieldIs "faction_id" faction) story.characters.items

/-- Whether one of the named stats of a character reaches a threshold. -/
def reaches (character threshold : Value) : List Value → Outcome Bool
  | [] => .ok false
  | name :: names => do
    let stats ← character.get "stats"
    let v ← stats.getKey (name.textOr "") (.int 0)
    if ← v.holds .ge threshold then return true else reaches character threshold names

/-- Whether a character is a principal: it has an archetype, or a stat that counts is high. -/
def isPrincipal (config character : Value) : Outcome Bool := do
  character.calling "is_principal"
  let archetype ← character.get "archetype"
  if archetype.truthy then return true
  else
    reaches character (config.field "principal_threshold") (config.field "principal_stats").items

/-- The principals of a story. -/
def principals (story : Story) (config : Value) : Outcome (List Value) :=
  selectItems (isPrincipal config) story.characters.items

/-- The tie from one character to another. -/
def relationship? (story : Story) (source target : Value) : Outcome (Option Value) :=
  findItem (fun tie => do
    if ← fieldIs "from_" source tie then fieldIs "to" target tie else return false)
    story.relationships.items

/-- The tie of an id. -/
def relationshipById? (story : Story) (id : Value) : Outcome (Option Value) :=
  findItem (fieldIs "id" id) story.relationships.items

/-- Whether a tie starts or ends at a character. -/
def touches (character : Value) (tie : Value) : Outcome Bool := do
  tie.calling "touches"
  let source ← tie.get "from_"
  let target ← tie.get "to"
  return source.equal character || target.equal character

/-- The ties of a character. -/
def relationshipsFor (story : Story) (character : Value) : Outcome (List Value) :=
  selectItems (touches character) story.relationships.items

/-- The faction of an id. -/
def faction? (story : Story) (id : Value) : Outcome (Option Value) :=
  findItem (fieldIs "id" id) story.factions.items

/-- The location of an id. -/
def location? (story : Story) (id : Value) : Outcome (Option Value) := do
  let locations ← story.world.get "locations"
  let items ← locations.iterate
  findItem (fieldIs "id" id) items

/-- The secret of an id. -/
def secret? (story : Story) (id : Value) : Outcome (Option Value) :=
  findItem (fieldIs "id" id) story.secrets.items

/-- The secrets that a character holds. -/
def secretsKnownBy (story : Story) (character : Value) : Outcome (List Value) :=
  selectItems (fun secret => do
    let holders ← secret.get "holders"
    character.member holders) story.secrets.items

/-- The secrets that are still active. -/
def activeSecrets (story : Story) : Outcome (List Value) :=
  selectItems (fieldIs "status" (.text "active")) story.secrets.items

/-- The thread of an id. -/
def thread? (story : Story) (id : Value) : Outcome (Option Value) :=
  findItem (fieldIs "id" id) story.threads.items

/-- The threads that are open. -/
def openThreads (story : Story) : Outcome (List Value) :=
  selectItems (fieldIs "status" (.text "open")) story.threads.items

/-- The threads that are urgent. -/
def urgentThreads (story : Story) : Outcome (List Value) :=
  selectItems (fun thread => (thread.computed "is_urgent").map Value.truthy) story.threads.items

/-- The balance of a holder; zero without an entry. -/
def cashBalance (story : Story) (holder : Value) : Outcome Value := do
  match ← findItem (fieldIs "holder" holder) (story.assets.field "cash_ledger").items with
  | some entry => entry.get "denarii"
  | none => return .int 0

/-- The offices that a character holds. -/
def officesOf (story : Story) (character : Value) : Outcome (List Value) :=
  selectItems (fieldIs "owner" character) (story.assets.field "offices").items

/-- The ids of the offices that a character holds. -/
def officesHeldBy (story : Story) (character : Value) : Outcome (List Value) := do
  let offices ← officesOf story character
  offices.mapM (Value.get "id")

/-- The powers of the offices among some that a character holds. -/
def powersOf (character : Value) : List Value → Outcome (List Value)
  | [] => .ok []
  | office :: rest => do
    if ← fieldIs "owner" character office then
      let powers ← office.get "powers"
      let own ← powers.iterate
      let others ← powersOf character rest
      return own ++ others
    else powersOf character rest

/-- The powers of the offices that a character holds. -/
def officePowers (story : Story) (character : Value) : Outcome (List Value) :=
  powersOf character (story.assets.field "offices").items

end StoryWorld.Story
