import StoryWorld.Number.Basic
import StoryWorld.Table

/-!
Values: everything that can stand somewhere in a story.

A story holds typed entities, but any of its fields can come to hold any document value, so one
dynamic type serves for both. An entity is its kind and its slots: the declared fields in their
order, then the extra fields its document had, then what was put beside the document later. Values
are trees: two that stand in different places have nothing in common, even if they came from one. A
text is a sequence of whole characters, so no half of a surrogate pair can be in it.
-/

namespace StoryWorld

/-- The kinds of entity: those of a story, the documents that act on it, the configuration, and the
views handed to a scene. -/
inductive Kind where
  | bare | worldTime | location | world | faction | characterStatus | belief | desire | intention
  | mind | voice | character | relationship | secretStats | secretDecay | secret | ledgerEntry
  | network | office | contract | grainAsset | assets | threadCadence | thread | constraintRule
  | constraints | worldState
  | delta | committedDelta | prereq | sideEffectRisk | operator | operatorCatalog
  | appConfig | retrieverConfig | worldConfig | appConfigRoot
  | relationshipView | assetView | beliefView | secretView | retrievedSubgraph
  deriving DecidableEq, Repr

namespace Kind

/-- The name of a kind, as messages give it. -/
def name : Kind → String
  | bare => "EntityModel"
  | worldTime => "WorldTime"
  | location => "Location"
  | world => "World"
  | faction => "Faction"
  | characterStatus => "CharacterStatus"
  | belief => "Belief"
  | desire => "Desire"
  | intention => "Intention"
  | mind => "BDI"
  | voice => "Voice"
  | character => "Character"
  | relationship => "Relationship"
  | secretStats => "SecretStats"
  | secretDecay => "SecretDecay"
  | secret => "Secret"
  | ledgerEntry => "LedgerEntry"
  | network => "Network"
  | office => "Office"
  | contract => "Contract"
  | grainAsset => "GrainAsset"
  | assets => "Assets"
  | threadCadence => "ThreadCadence"
  | thread => "Thread"
  | constraintRule => "ConstraintRule"
  | constraints => "Constraints"
  | worldState => "WorldState"
  | delta => "Delta"
  | committedDelta => "CommittedDelta"
  | prereq => "Prereq"
  | sideEffectRisk => "SideEffectRisk"
  | operator => "Operator"
  | operatorCatalog => "OperatorCatalog"
  | appConfig => "AppConfig"
  | retrieverConfig => "RetrieverConfig"
  | worldConfig => "WorldConfig"
  | appConfigRoot => "AppConfigRoot"
  | relationshipView => "RelationshipView"
  | assetView => "AssetView"
  | beliefView => "BeliefView"
  | secretView => "SecretView"
  | retrievedSubgraph => "RetrievedSubgraph"

/-- Every kind, in the order of their declaration. -/
def all : List Kind := [
  bare, worldTime, location, world, faction, characterStatus, belief, desire, intention, mind,
  voice, character, relationship, secretStats, secretDecay, secret, ledgerEntry, network, office,
  contract, grainAsset, assets, threadCadence, thread, constraintRule, constraints, worldState,
  delta, committedDelta, prereq, sideEffectRisk, operator, operatorCatalog, appConfig,
  retrieverConfig, worldConfig, appConfigRoot, relationshipView, assetView, beliefView, secretView,
  retrievedSubgraph]

/-- The kind of a name. -/
def ofName? (name : String) : Option Kind := all.find? fun kind => kind.name == name

end Kind

/-- A place in an entity: a declared field under its internal name, an extra field that came with
the document, something attached later that is read like a field and never written out, or what was
put in the place of the record of the fields that the entity was given. -/
inductive Slot where
  | field (name : String)
  | extra (name : String)
  | attached (name : String)
  | given
  deriving DecidableEq, Repr

/-- Whether a slot is that of an extra field. -/
def Slot.isExtra : Slot → Bool
  | extra _ => true
  | _ => false

/-- Whether a slot is one of those that an entity holds beside its extra fields. -/
def Slot.isOwn : Slot → Bool
  | field _ | attached _ => true
  | extra _ | given => false

/-- What something built in belongs to: the kind, or the one entity that a place leads to. -/
inductive Owner where
  | kind (k : Kind)
  | entity (place : List String)
  deriving DecidableEq, Repr

/-- Something built into entities, such as an operation. `typeName` is what messages call a value
of its type. -/
structure Builtin where
  name : String
  typeName : String
  owner : Owner
  deriving DecidableEq, Repr

/-- A value: a document value, an entity, or something built into entities, which no document can
hold. -/
inductive Value where
  | null
  | bool (b : Bool)
  | number (n : Number)
  | text (s : String)
  | list (items : List Value)
  | mapping (entries : List (String × Value))
  | entity (kind : Kind) (slots : List (Slot × Value))
  | builtin (b : Builtin)
  deriving Repr, Inhabited

namespace Value

/-- A whole number as a value. -/
def int (n : Int) : Value := number (.int n)

/-- A float as a value. -/
def float (x : Float) : Value := number (.float x)

/-- The declared field of an entity. -/
def field? (name : String) : Value → Option Value
  | entity _ slots => Table.get? (.field name) slots
  | _ => none

/-- The declared field of an entity that is known to have it. -/
def field (name : String) (v : Value) : Value := (v.field? name).getD null

/-- The entity with another value in a declared field. -/
def setField (v : Value) (name : String) (value : Value) : Value :=
  match v with
  | entity kind slots => entity kind (Table.put (.field name) value slots)
  | v => v

/-- The extra field of an entity. -/
def extra? (name : String) : Value → Option Value
  | entity _ slots => Table.get? (.extra name) slots
  | _ => none

/-- The extra fields of an entity. -/
def extras : List (Slot × Value) → List (String × Value)
  | [] => []
  | (.extra name, v) :: rest => (name, v) :: extras rest
  | _ :: rest => extras rest

/-- What an entity holds beside its extra fields: its declared fields by their names inside, and what
was attached to it. -/
def own : List (Slot × Value) → List (String × Value)
  | [] => []
  | (.extra _, _) :: rest | (.given, _) :: rest => own rest
  | (.field name, v) :: rest => (name, v) :: own rest
  | (.attached name, v) :: rest => (name, v) :: own rest

/-- The items of a list, none of anything else. -/
def items : Value → List Value
  | list xs => xs
  | _ => []

/-- The text, empty for anything else. -/
def textOr (default : String) : Value → String
  | text s => s
  | _ => default

/-- Whether a value is an entity of the given kind. -/
def isEntity (kind : Kind) : Value → Bool
  | entity k _ => k == kind
  | _ => false

/-- A number that is not a truth value. -/
def number? : Value → Option Number
  | number n => some n
  | _ => none

/-- Whether a value counts as present in a condition: empty and zero values do not. -/
def truthy : Value → Bool
  | null => false
  | bool b => b
  | number n => !n.isZero
  | text s => !s.isEmpty
  | list xs => !xs.isEmpty
  | mapping es => !es.isEmpty
  | entity _ _ => true
  | builtin _ => true

end Value

namespace Value

/-- The value, told to belong to the entity at a place if it is something built into one. -/
def ownedAt (place : List String) : Value → Value
  | builtin ⟨name, typeName, .entity _⟩ => builtin ⟨name, typeName, .entity place⟩
  | v => v

end Value

/-- The category of a value that messages and comparisons speak of. -/
inductive Category where
  | null | boolean | number | string | sequence | mapping | entity | other
  deriving DecidableEq, Repr

namespace Category

/-- The word for a category. -/
def name : Category → String
  | null => "null"
  | boolean => "boolean"
  | number => "number"
  | string => "string"
  | sequence => "sequence"
  | mapping => "mapping"
  | entity => "entity"
  | other => "other"

end Category

namespace Value

/-- The category of a value. -/
def category : Value → Category
  | null => .null
  | bool _ => .boolean
  | number _ => .number
  | text _ => .string
  | list _ => .sequence
  | mapping _ => .mapping
  | entity _ _ => .entity
  | builtin _ => .other

end Value

end StoryWorld
