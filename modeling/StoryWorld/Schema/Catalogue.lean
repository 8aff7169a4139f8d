import StoryWorld.Schema.Shape

/-!
The catalogue: the fields of every kind of entity.

The kinds are listed from the inside out, since the shape of an entity holds the shapes of its
parts. Entities of a story keep the fields they do not know; deltas, prerequisites and catalogues of
operators pass over them; the configuration refuses them.
-/

namespace StoryWorld

/-- What becomes of the fields of a document that its kind does not know. -/
inductive Unknown where
  | keep | ignore | forbid
  deriving DecidableEq, Repr

open Shape

/-- The fields of an entity. -/
abbrev Fields := List (Field × Shape)

namespace Fields

/-- The time of a world. -/
def worldTime : Fields := [
  nullable "year_bce" .whole, nullable "season" .text, nullable "day" .whole]

/-- A place of the world. -/
def location : Fields := [required "id" .text, withDefault "name" .text (.text "")]

/-- The world itself. -/
def world : Fields := [
  withDefault "world_id" .text (.text "world"),
  part "time" .worldTime worldTime,
  many "locations" (.record .location location),
  called "global" (named "global_" .number)]

/-- A faction. -/
def faction : Fields := [
  required "id" .text,
  withDefault "name" .text (.text ""),
  nullable "alignment" .number,
  nullable "resources" .number,
  named "stats" .number]

/-- The state a character is in. -/
def characterStatus : Fields := [
  withDefault "alive" .truth (.bool true),
  nullable "location_id" .text,
  nullable "injured" .truth,
  nullable "wanted" .truth,
  nullable "subpoenaed" .truth]

/-- Something a character believes. -/
def belief : Fields := [
  withDefault "id" .text (.text ""),
  required "text" .text,
  ruled .unitInterval (withDefault "confidence" .real (.float 0.5))]

/-- Something a character wants. -/
def desire : Fields := [
  withDefault "id" .text (.text ""),
  required "text" .text,
  withDefault "priority" .real (.float 0.5)]

/-- Something a character means to do. -/
def intention : Fields := [
  withDefault "id" .text (.text ""),
  withDefault "operator_id" .text (.text ""),
  withDefault "commitment" .real (.float 0.5),
  nullable "target" .text]

/-- What goes on in a character's mind. -/
def mind : Fields := [
  many "beliefs" (.record .belief belief),
  many "desires" (.record .desire desire),
  many "intentions" (.record .intention intention),
  many "constraints" .text]

/-- How a character speaks. -/
def voice : Fields := [many "tags" .text, many "tells" .text]

/-- A character. -/
def character : Fields := [
  required "id" .text,
  withDefault "name" .text (.text ""),
  nullable "archetype" .text,
  nullable "faction_id" .text,
  named "stats" .number,
  part "status" .characterStatus characterStatus,
  part "bdi" .mind mind,
  named "emotional_state" .any,
  part "voice" .voice voice]

/-- A tie from one character to another. -/
def relationship : Fields := [
  required "id" .text,
  called "from" (required "from_" .text),
  required "to" .text,
  withDefault "type" .text (.text "ally"),
  named "weights" .number,
  named "flags" .truth]

/-- What a secret is worth. -/
def secretStats : Fields := [
  withDefault "legal_value" .real (.int 0),
  withDefault "public_damage" .real (.int 0),
  withDefault "credibility" .real (.int 0)]

/-- How a secret fades. -/
def secretDecay : Fields := [
  withDefault "half_life_episodes" .number (.int 0),
  many "applies_to" .text,
  withDefault "last_decayed_episode" .whole (.int 0)]

/-- A secret. -/
def secret : Fields := [
  required "id" .text,
  many "subject_ids" .text,
  many "holders" .text,
  withDefault "description" .text (.text ""),
  withDefault "status" .text (.text "active"),
  part "stats" .secretStats secretStats,
  nullable "decay" (.record .secretDecay secretDecay)]

/-- An entry of the cash ledger. -/
def ledgerEntry : Fields := [
  required "holder" .text,
  ruled .balance (withDefault "denarii" .number (.int 0))]

/-- A network that someone owns. -/
def network : Fields := [
  required "id" .text,
  withDefault "name" .text (.text ""),
  required "owner" .text,
  withDefault "type" .text (.text ""),
  named "stats" .number,
  nullable "upkeep_cost" .number]

/-- An office that someone holds. -/
def office : Fields := [
  required "id" .text,
  withDefault "name" .text (.text ""),
  required "owner" .text,
  withDefault "type" .text (.text ""),
  many "powers" .text]

/-- A contract between stakeholders. -/
def contract : Fields := [
  required "id" .text,
  withDefault "type" .text (.text ""),
  withDefault "status" .text (.text "pending"),
  many "stakeholders" .text]

/-- The grain in store. -/
def grainAsset : Fields := [
  withDefault "inventory_units" .number (.int 0),
  many "controlled_by" .text,
  many "warehouse_locations" .text]

/-- All that is owned, the cash ledger among it. -/
def assets : Fields := [
  nullable "grain" (.record .grainAsset grainAsset),
  many "contracts" (.record .contract contract),
  many "cash_ledger" (.record .ledgerEntry ledgerEntry),
  many "networks" (.record .network network),
  many "offices" (.record .office office)]

/-- How often a thread has to move on. -/
def threadCadence : Fields := [withDefault "max_episodes_without_progress" .whole (.int 3)]

/-- A thread of the plot. -/
def thread : Fields := [
  required "id" .text,
  withDefault "priority" .real (.float 0.5),
  withDefault "question" .text (.text ""),
  withDefault "status" .text (.text "open"),
  part "advance_cadence" .threadCadence threadCadence,
  withDefault "last_advanced_episode" .whole (.int 0),
  withDefault "episodes_since_progress" .whole (.int 0),
  many "related_state_paths" .text,
  many "related_secrets" .text]

/-- A rule that a story has to keep. -/
def constraintRule : Fields := [required "id" .text, required "rule" .text]

/-- The rules of a story. -/
def constraints : Fields := [
  many "hard_constraints" (.record .constraintRule constraintRule),
  many "soft_constraints" (.record .constraintRule constraintRule)]

/-- A whole story. -/
def worldState : Fields := [
  part "world" .world world,
  many "characters" (.record .character character),
  many "relationships" (.record .relationship relationship),
  many "secrets" (.record .secret secret),
  part "assets" .assets assets,
  many "threads" (.record .thread thread),
  many "factions" (.record .faction faction),
  part "constraints" .constraints constraints]

/-- A change to a story. -/
def delta : Fields := [
  required "op" (.choice ["set", "add", "subtract", "multiply", "append", "remove", "transfer"]),
  withDefault "path" .text (.text ""),
  withDefault "value" .any .null,
  nullable "match" (.mapping .any),
  called "from" (nullable "from_" .text),
  nullable "to" .text,
  orCalled "denarii" (nullable "amount" .number)]

/-- A change that was made, with the scene it belongs to and the reason for it. -/
def committedDelta : Fields := delta ++ [nullable "scene_id" .text, nullable "reason" .text]

/-- A condition of an operator. -/
def prereq : Fields := [required "expr" .text, nullable "id" .text]

/-- What else an operator may bring about. -/
def sideEffectRisk : Fields := [
  required "id" .text,
  withDefault "text" .text (.text ""),
  ruled .chance (withDefault "prob" .real (.float 0.0)),
  nullable "consequence_operator" .text,
  withDefault "consequence_delay" (.choice ["immediate", "same_episode", "next_episode"])
    (.text "immediate")]

/-- A move of the story. -/
def operator : Fields := [
  required "id" .text,
  required "type" (.choice ["thriller", "soap"]),
  many "tags" .text,
  ruled .bareExpressions (many "prereqs" (.record .prereq prereq)),
  many "effects" (.record .delta delta),
  many "side_effect_risks" (.record .sideEffectRisk sideEffectRisk),
  many "scene_suggestions" .text,
  named "allowed_inventions" .whole,
  withDefault "writer_guidance" .text (.text "")]

/-- A collection of operators. -/
def operatorCatalog : Fields := [many "operators" (.record .operator operator)]

/-- The settings of the application. -/
def appConfig : Fields := [ruled .level (withDefault "log_level" .text (.text "INFO"))]

/-- The limits of retrieval. -/
def retrieverConfig : Fields := [
  ruled .nonNegative (withDefault "max_hops" .whole (.int 2)),
  ruled .nonNegative (withDefault "max_relationships" .whole (.int 15)),
  ruled .nonNegative (withDefault "max_secrets" .whole (.int 5)),
  ruled .nonNegative (withDefault "max_beliefs" .whole (.int 3)),
  withDefault "include_inactive_secrets" .truth (.bool false)]

/-- Who counts as a principal. -/
def worldConfig : Fields := [
  withDefault "principal_threshold" .real (.int 60),
  ruled .statNames
    (withDefault "principal_stats" (.list .text) (.list [.text "auctoritas", .text "influence"]))]

/-- The whole configuration. -/
def appConfigRoot : Fields := [
  part "app" .appConfig appConfig,
  part "retriever" .retrieverConfig retrieverConfig,
  part "world" .worldConfig worldConfig]

/-- A tie as a scene sees it. -/
def relationshipView : Fields := [
  required "source" .text,
  required "target" .text,
  required "type" .text,
  required "dynamic" .text,
  named "weights" .number,
  required "hop_distance" .whole]

/-- A holding as a scene sees it. -/
def assetView : Fields := [
  required "id" .text, nullable "status" .text, withDefault "context" .text (.text "")]

/-- A belief as a scene sees it. -/
def beliefView : Fields := [required "holder" .text, required "text" .text]

/-- A secret as a scene sees it. -/
def secretView : Fields := [
  required "id" .text, many "holders" .text, withDefault "summary" .text (.text "")]

/-- All that a scene is told. -/
def retrievedSubgraph : Fields := [
  required "note" .text,
  many "relationships" (.record .relationshipView relationshipView),
  many "relevant_assets" (.record .assetView assetView),
  many "relevant_beliefs" (.record .beliefView beliefView),
  many "relevant_secrets" (.record .secretView secretView)]

end Fields

namespace Kind

/-- The fields of a kind. -/
def fields : Kind → Fields
  | bare => []
  | worldTime => Fields.worldTime
  | location => Fields.location
  | world => Fields.world
  | faction => Fields.faction
  | characterStatus => Fields.characterStatus
  | belief => Fields.belief
  | desire => Fields.desire
  | intention => Fields.intention
  | mind => Fields.mind
  | voice => Fields.voice
  | character => Fields.character
  | relationship => Fields.relationship
  | secretStats => Fields.secretStats
  | secretDecay => Fields.secretDecay
  | secret => Fields.secret
  | ledgerEntry => Fields.ledgerEntry
  | network => Fields.network
  | office => Fields.office
  | contract => Fields.contract
  | grainAsset => Fields.grainAsset
  | assets => Fields.assets
  | threadCadence => Fields.threadCadence
  | thread => Fields.thread
  | constraintRule => Fields.constraintRule
  | constraints => Fields.constraints
  | worldState => Fields.worldState
  | delta => Fields.delta
  | committedDelta => Fields.committedDelta
  | prereq => Fields.prereq
  | sideEffectRisk => Fields.sideEffectRisk
  | operator => Fields.operator
  | operatorCatalog => Fields.operatorCatalog
  | appConfig => Fields.appConfig
  | retrieverConfig => Fields.retrieverConfig
  | worldConfig => Fields.worldConfig
  | appConfigRoot => Fields.appConfigRoot
  | relationshipView => Fields.relationshipView
  | assetView => Fields.assetView
  | beliefView => Fields.beliefView
  | secretView => Fields.secretView
  | retrievedSubgraph => Fields.retrievedSubgraph

/-- The shape of a kind. -/
def shape (kind : Kind) : Shape := .record kind kind.fields

/-- What becomes of fields that a kind does not know. -/
def unknown : Kind → Unknown
  | delta | committedDelta | prereq | operatorCatalog => .ignore
  | relationshipView | assetView | beliefView | secretView | retrievedSubgraph => .ignore
  | appConfig | retrieverConfig | worldConfig | appConfigRoot => .forbid
  | _ => .keep

/-- The kinds of entity that guard their fields: what is assigned to one has to fit it. -/
def guarded : Kind → Bool
  | ledgerEntry | assets => true
  | _ => false

/-- The declared field of a kind with the given name inside. -/
def field? (kind : Kind) (name : String) : Option (Field × Shape) :=
  kind.fields.find? fun f => f.1.name == name

/-- The name of a field in documents. -/
def external (kind : Kind) (name : String) : String :=
  match kind.field? name with
  | some f => f.1.external
  | none => name

end Kind

end StoryWorld
