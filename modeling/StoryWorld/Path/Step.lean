import StoryWorld.Schema.Builtin
import StoryWorld.Value.Computed

/-!
Steps from a value to a value inside it.

A step names a slot of an entity, a key of a mapping or a position of a list. Two kinds of step
lead to values that no slot holds: what an entity computes from its fields, and what is built into
it. `read` follows a step, `put` replaces what it leads to, and `replace` does so at the end of
several steps.
-/

namespace StoryWorld

/-- A step into a value. -/
inductive Step where
  | slot (s : Slot)
  | computed (name : String)
  | builtin (name : String)
  | key (k : String)
  | item (i : Nat)
  deriving DecidableEq, Repr

namespace Step

/-- The manners of place that a step leads to. -/
inductive Manner where
  | field | mappingKey | position
  deriving DecidableEq, Repr

/-- The manner of place that a step leads to. -/
def manner : Step → Manner
  | slot _ | computed _ | builtin _ => .field
  | key _ => .mappingKey
  | item _ => .position

/-- The word for a manner of place. -/
def Manner.name : Manner → String
  | field => "attribute"
  | mappingKey => "mapping_key"
  | position => "sequence_index"

/-- The name, key or position that a step goes by. -/
def label : Step → Value
  | slot (.field name) | slot (.extra name) | slot (.attached name) => .text name
  | slot .given => .text Kind.givenName
  | computed name | builtin name => .text name
  | key k => .text k
  | item i => .int i

/-- The label as a text. -/
def labelText (step : Step) : String := step.label.shownText

end Step

namespace Value

/-- The step to an extra field. A computed value or a built-in name comes before it, and what was
put in the place of what is built in comes before that. -/
def extraStep (kind : Kind) (slots : List (Slot × Value)) (name : String) : Step :=
  if (computedNames kind).contains name then .computed name
  else
    match kind.member? name with
    | some member =>
      match member.slot? name with
      | some slot => if Table.has slot slots then .slot slot else .builtin name
      | none => .builtin name
    | none =>
      if Table.has (.attached name) slots then .slot (.attached name) else .slot (.extra name)

/-- What a step leads to. -/
def read : Value → Step → Outcome Value
  | entity _ slots, .slot s =>
    match Table.get? s slots with
    | some v => .ok v
    | none => .error .noField
  | entity kind slots, .computed name => computed (entity kind slots) name
  | entity kind slots, .builtin name =>
    match kind.member? name with
    | some member => .ok (member.value kind slots name)
    | none => .error .noField
  | mapping es, .key k =>
    match Table.get? k es with
    | some v => .ok v
    | none => .error .noField
  | list xs, .item i =>
    match xs[i]? with
    | some v => .ok v
    | none => .error .noField
  | _, _ => .error .noField

/-- The slots with other values in those that are picked, in turn. -/
def refill (picked : Slot → Bool) :
    List (Slot × Value) → List (String × Value) → List (Slot × Value)
  | [], _ => []
  | slots, [] => slots
  | (s, v) :: rest, e :: es =>
    if picked s then (s, e.2) :: refill picked rest es else (s, v) :: refill picked rest (e :: es)

/-- The slots with something else in one of them, if it is there. -/
def putHeld (s : Slot) (v : Value) (slots : List (Slot × Value)) : List (Slot × Value) :=
  if Table.has s slots then Table.put s v slots else slots

/-- An entity with something else for a computed value: in the extra field that stands in for it,
if one does. A value that is really computed stays. -/
def putComputed (kind : Kind) (slots : List (Slot × Value)) (name : String) (v : Value) : Value :=
  match compute name (entity kind slots) with
  | .error .noField => entity kind (Table.put (.extra name) v slots)
  | _ => entity kind slots

/-- An entity with something else inside what stands under a built-in name: the extra fields, what
the entity holds beside them and what took the place of the set of given fields can change. All else
stays; writes into a table of a kind, which all its entities share, are not followed. -/
def putBuiltin (kind : Kind) (slots : List (Slot × Value)) (name : String) (v : Value) : Value :=
  match kind.member? name, v with
  | some .extras, mapping es => entity kind (refill Slot.isExtra slots es)
  | some .own, mapping es => entity kind (refill Slot.isOwn slots es)
  | some (.given _), v => entity kind (putHeld .given v slots)
  | _, _ => entity kind slots

/-- The value with something else where a step leads. -/
def put : Value → Step → Value → Value
  | entity kind slots, .slot s, v => entity kind (Table.put s v slots)
  | entity kind slots, .computed name, v => putComputed kind slots name v
  | entity kind slots, .builtin name, v => putBuiltin kind slots name v
  | mapping es, .key k, v => mapping (Table.put k v es)
  | list xs, .item i, v => list (xs.set i v)
  | w, _, _ => w

/-- The value after a change somewhere inside what a step leads to. A list that is computed has its
items in common with the lists that it is put together from. -/
def putInside (v : Value) (s : Step) (inner : Value) : Value :=
  match v, s, inner with
  | entity kind slots, .computed name, list items =>
    match compute name (entity kind slots) with
    | .ok _ => shareItems (entity kind slots) items
    | .error _ => v.put s inner
  | _, _, _ => v.put s inner

/-- What a sequence of steps leads to. -/
def follow : Value → List Step → Outcome Value
  | v, [] => .ok v
  | v, s :: rest => do
    let w ← v.read s
    follow w rest

/-- The value with something else where a sequence of steps leads. -/
def replace : Value → List Step → Value → Value
  | _, [], w => w
  | v, s :: rest, w =>
    match v.read s with
    | .ok inner =>
      match rest with
      | [] => v.put s w
      | _ => v.putInside s (replace inner rest w)
    | .error _ => v

end Value

end StoryWorld
