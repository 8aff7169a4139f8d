import StoryWorld.Journal
import StoryWorld.Retrieval.Walk

/-!
What a scene is told about the story: ties, holdings, beliefs and secrets around its participants,
within the limits of the configuration.
-/

namespace StoryWorld

/-- The limits of retrieval. -/
structure Limits where
  hops : Nat
  relationships : Nat
  secrets : Nat
  beliefs : Nat
  inactive : Bool
  deriving DecidableEq, Repr

namespace Limits

/-- A whole number that was read as not below zero. -/
def count (v : Value) : Nat :=
  match v with
  | .number (.int n) => n.toNat
  | _ => 0

/-- The limits of an entity that was read as a configuration. -/
def ofEntity (v : Value) : Limits :=
  ⟨count (v.field "max_hops"), count (v.field "max_relationships"), count (v.field "max_secrets"),
    count (v.field "max_beliefs"), (v.field "include_inactive_secrets").truthy⟩

/-- The limits of a configuration that says nothing. -/
def standard : Limits := ofEntity (Shape.blank .retrieverConfig Fields.retrieverConfig)

end Limits

namespace Subgraph

/-- The weights that say something about a tie when they are above a threshold. -/
def weightLabels : List (String × Int × String) := [
  ("loyalty", 70, "strong loyalty"), ("fear", 50, "fear-based"),
  ("resentment", 60, "bitter resentment"), ("respect", 70, "mutual respect"),
  ("dependency", 60, "strong dependency")]

/-- The flags that say something about a tie. -/
def flagLabels : List (String × String) := [
  ("public_feud", "public feud"), ("transactional", "transactional relationship")]

/-- What the weights of a tie say. -/
def weightsSay (tie : Value) : List (String × Int × String) → Outcome (List String)
  | [] => .ok []
  | (name, threshold, label) :: rest => do
    let weights ← tie.get "weights"
    let weight ← weights.getKey name (.int 0)
    let above ← weight.holds .gt (.int threshold)
    let labels ← weightsSay tie rest
    return if above then label :: labels else labels

/-- What the flags of a tie say. -/
def flagsSay (tie : Value) : List (String × String) → Outcome (List String)
  | [] => .ok []
  | (name, label) :: rest => do
    let flags ← tie.get "flags"
    let flag ← flags.getKey name .null
    let labels ← flagsSay tie rest
    return if flag.truthy then label :: labels else labels

/-- What is going on in a tie, or else its type. -/
def dynamic (tie : Value) : Outcome Value := do
  let weights ← weightsSay tie weightLabels
  let flags ← flagsSay tie flagLabels
  let labels := weights ++ flags
  if labels.isEmpty then tie.get "type" else return .text (", ".intercalate labels)

/-- A tie as a scene sees it. -/
def relationshipView (w : Walk.Walked) : Outcome Value := do
  let source ← w.tie.get "from_"
  let target ← w.tie.get "to"
  let type ← w.tie.get "type"
  let dynamic ← dynamic w.tie
  let weights ← w.tie.get "weights"
  Schema.read .relationshipView (.mapping [("source", source), ("target", target), ("type", type),
    ("dynamic", dynamic), ("weights", weights), ("hop_distance", .int w.hop)])

/-- Whether a participant is among the values that another value holds. -/
def meets (participants : List Value) (ids : Value) : Outcome Bool := do
  let ids ← ids.iterate
  if ids.all Value.isKey then return ids.any fun id => Walk.isAmong id participants
  else .error .wrongType

/-- Whether a secret is about a participant, or held by one. -/
def involves (participants : List Value) (secret : Value) : Outcome Bool := do
  secret.calling "involves"
  if ← meets participants (← secret.get "subject_ids") then return true
  else meets participants (← secret.get "holders")

/-- Puts an item with its key into a list that is sorted by descending key, behind equal keys. -/
def insertSorted (key item : Value) : List (Value × Value) → Outcome (List (Value × Value))
  | [] => .ok [(key, item)]
  | (k, v) :: rest => do
    if ← k.holds .lt key then return (key, item) :: (k, v) :: rest
    else
      let rest ← insertSorted key item rest
      return (k, v) :: rest

/-- Items sorted by descending key, those of equal keys in the order in which they came. -/
def sortDescending (keyed : List (Value × Value)) : Outcome (List Value) :=
  (keyed.foldlM (fun sorted e => insertSorted e.1 e.2 sorted) []).map fun es => es.map Prod.snd

/-- Items with a key each. -/
def withKeys (key : Value → Outcome Value) (items : List Value) :
    Outcome (List (Value × Value)) :=
  items.mapM fun item => (key item).map fun k => (k, item)

/-- Whether a secret is a candidate: active, unless inactive ones are wanted, and involving a
participant. -/
def isCandidate (participants : List Value) (limits : Limits) (secret : Value) : Outcome Bool := do
  if limits.inactive then involves participants secret
  else if ← Story.fieldIs "status" (.text "active") secret then involves participants secret
  else return false

/-- A secret as a scene sees it. -/
def secretView (secret : Value) : Outcome Value := do
  let id ← secret.get "id"
  let holders ← (← secret.get "holders").iterate
  let summary ← secret.get "description"
  Schema.read .secretView
    (.mapping [("id", id), ("holders", .list holders), ("summary", summary)])

/-- The secrets that matter most. -/
def secretViews (story : Story) (participants : List Value) (limits : Limits) :
    Outcome (List Value) := do
  let candidates ← Story.selectItems (isCandidate participants limits) story.secrets.items
  let sorted ← sortDescending (← withKeys (Value.computed · "relevance_score") candidates)
  (sorted.take limits.secrets).mapM secretView

/-- A belief of a participant as a scene sees it. -/
def beliefView (holder belief : Value) : Outcome Value := do
  let text ← belief.get "text"
  Schema.read .beliefView (.mapping [("holder", holder), ("text", text)])

/-- The strongest beliefs of a character. -/
def beliefsOf (holder character : Value) (limits : Limits) : Outcome (List Value) := do
  let mind ← character.get "bdi"
  let beliefs ← (← mind.get "beliefs").iterate
  let sorted ← sortDescending (← withKeys (Value.get "confidence") beliefs)
  (sorted.take limits.beliefs).mapM (beliefView holder)

/-- The strongest beliefs of the participants, one participant after the other. -/
def beliefViews (story : Story) (limits : Limits) : List Value → Outcome (List Value)
  | [] => .ok []
  | id :: rest => do
    let own ← match ← story.character? id with
      | some character => beliefsOf id character limits
      | none => .ok []
    let others ← beliefViews story limits rest
    return own ++ others

/-- A holding as a scene sees it. -/
def assetView (id status : Value) (context : String) : Outcome Value :=
  Schema.read .assetView
    (.mapping [("id", id), ("status", status), ("context", .text context)])

/-- Whether a value is one of the participants. -/
def isParticipant (participants : List Value) (v : Value) : Outcome Bool :=
  if v.isKey then .ok (Walk.isAmong v participants) else .error .wrongType

/-- The view of a holding, if it concerns a participant. -/
abbrev Viewer := List Value → Value → Outcome (Option Value)

/-- A network that a participant owns. -/
def networkView : Viewer := fun participants network => do
  let owner ← network.get "owner"
  if ← isParticipant participants owner then
    let id ← network.get "id"
    let name ← network.get "name"
    let type ← network.get "type"
    let view ← assetView id (.text "active")
      (name.shownText ++ " (" ++ type.shownText ++ ") owned by " ++ owner.shownText)
    return some view
  else return none

/-- A value that has to be a text. -/
def asText : Value → Outcome String
  | .text s => .ok s
  | _ => .error .wrongType

/-- Texts joined with commas; nothing but texts can be joined. -/
def joined (values : List Value) : Outcome String :=
  (values.mapM asText).map fun texts => ", ".intercalate texts

/-- An office that a participant holds. -/
def officeView : Viewer := fun participants office => do
  let owner ← office.get "owner"
  if ← isParticipant participants owner then
    let id ← office.get "id"
    let name ← office.get "name"
    let powers ← joined (← (← office.get "powers").iterate)
    let view ← assetView id (.text "held") (name.shownText ++ " with powers: " ++ powers)
    return some view
  else return none

/-- A contract with a participant among its stakeholders. -/
def contractView : Viewer := fun participants contract => do
  if ← meets participants (← contract.get "stakeholders") then
    let id ← contract.get "id"
    let status ← contract.get "status"
    let type ← contract.get "type"
    let view ← assetView id status (type.shownText ++ " contract")
    return some view
  else return none

/-- The views of those holdings that concern a participant. -/
def viewsOf (view : Viewer) (participants : List Value) : List Value → Outcome (List Value)
  | [] => .ok []
  | item :: rest => do
    let own ← view participants item
    let others ← viewsOf view participants rest
    return own.toList ++ others

/-- The holdings of the participants: networks, then offices, then contracts. -/
def assetViews (story : Story) (participants : List Value) : Outcome (List Value) := do
  let networks ← viewsOf networkView participants (story.assets.field "networks").items
  let offices ← viewsOf officeView participants (story.assets.field "offices").items
  let contracts ← viewsOf contractView participants (story.assets.field "contracts").items
  return networks ++ offices ++ contracts

end Subgraph

/-- What a scene is told. `walked` counts the ties before the cut. -/
structure Subgraph where
  note : String
  relationships : List Value
  assets : List Value
  beliefs : List Value
  secrets : List Value
  walked : Nat

namespace Subgraph

/-- The note on how a subgraph came about. -/
def noteFor (participants : List Value) (limits : Limits) : String :=
  "k-hop extraction (k=" ++ toString limits.hops ++ " hops from " ++
    toString participants.length ++ " participants)"

/-- What a scene with some participants is told. -/
def extract (story : Story) (participants : List Value) (limits : Limits) : Outcome Subgraph := do
  let walked ← Walk.walk story participants limits.hops
  let relationships ← (walked.take limits.relationships).mapM relationshipView
  let assets ← assetViews story participants
  let beliefs ← beliefViews story limits participants
  let secrets ← secretViews story participants limits
  return ⟨noteFor participants limits, relationships, assets, beliefs, secrets, walked.length⟩

/-- A subgraph as a document. -/
def dump (g : Subgraph) : Value := .mapping [
  ("note", .text g.note),
  ("relationships", .list (Value.dumpItems g.relationships)),
  ("relevant_assets", .list (Value.dumpItems g.assets)),
  ("relevant_beliefs", .list (Value.dumpItems g.beliefs)),
  ("relevant_secrets", .list (Value.dumpItems g.secrets))]

/-- The line about a subgraph. -/
def line (participants : List Value) (g : Subgraph) : Line :=
  ⟨.debug, "retriever", none, none,
    "Extracted subgraph participants=" ++ toString participants.length ++ " edges=" ++
      toString g.relationships.length ++ "/" ++ toString g.walked ++ " secrets=" ++
      toString g.secrets.length ++ " beliefs=" ++ toString g.beliefs.length ++ " assets=" ++
      toString g.assets.length⟩

/-- Extracts a subgraph, with the lines that are written. -/
def retrieve (story : Story) (participants : List Value) (limits : Limits) :
    List Line × Outcome Subgraph :=
  match extract story participants limits with
  | .ok g => ([line participants g], .ok g)
  | .error fault => ([], .error fault)

end Subgraph

end StoryWorld
