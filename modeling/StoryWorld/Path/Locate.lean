import StoryWorld.Path.Segment
import StoryWorld.Path.Step
import StoryWorld.Schema.Catalogue

/-!
Finding the place that segments lead to, from a value that is given.

A name selects a declared field by either of its names, else an extra field; the key of a mapping;
or the first item of a list whose `id` it is. An accessor selects further inside what the name led
to. Nothing is ever created on the way.
-/

namespace StoryWorld.Locate

/-- The declared field that a name selects: by its name inside, or else by the one in documents. -/
def declared? (kind : Kind) (name : String) : Option String :=
  match kind.fields.find? fun f => f.1.name == name with
  | some f => some f.1.name
  | none => (kind.fields.find? fun f => f.1.external == name).map fun f => f.1.name

/-- The step to the field of an entity that a name selects. -/
def fieldStep? (kind : Kind) (slots : List (Slot × Value)) (name : String) : Option Step :=
  match declared? kind name with
  | some field => some (.slot (.field field))
  | none =>
    if Table.has (.extra name) slots then some (Value.extraStep kind slots name) else none

/-- The `id` that an item of a list goes by. -/
def idOf : Value → Value
  | .mapping es => (Table.get? "id" es).getD .null
  | .entity _ slots =>
    let held := (Table.get? (.field "id") slots).or (Table.get? (.attached "id") slots)
    (held.or (Table.get? (.extra "id") slots)).getD .null
  | _ => .null

/-- Whether an item goes by an id. -/
def hasId (id : String) (item : Value) : Bool := (idOf item).equal (.text id)

/-- What a value without parts is called when something is looked up in it. -/
def typeName : Value → String
  | .null => "NoneType"
  | .bool _ => "bool"
  | .number (.int _) => "int"
  | .number (.float _) => "float"
  | .text _ => "str"
  | .list _ => "list"
  | .mapping _ => "dict"
  | .entity kind _ => kind.name
  | .builtin b => b.typeName

/-- The step to what a name selects directly under a value. -/
def child (path : String) (current : Value) (name : String) : Outcome Step :=
  match current with
  | .entity kind slots =>
    match fieldStep? kind slots name with
    | some step => .ok step
    | none =>
      refuse .pathNotFound
        ("No field '" ++ name ++ "' on " ++ kind.name ++ " in path: " ++ path)
  | .mapping es =>
    if Table.has name es then .ok (.key name)
    else refuse .pathNotFound ("No key '" ++ name ++ "' in path: " ++ path)
  | .list xs =>
    match xs.findIdx? (hasId name) with
    | some i => .ok (.item i)
    | none => refuse .pathNotFound ("No entity with id '" ++ name ++ "' in path: " ++ path)
  | v =>
    refuse .pathNotFound
      ("Cannot look up '" ++ name ++ "' on " ++ typeName v ++ " value in path: " ++ path)

/-- The step that an accessor makes inside what the name led to. -/
def access (path name : String) (value : Value) : Accessor → Outcome Step
  | .key k => child path value k
  | .position i =>
    let missing : Outcome Step :=
      refuse .pathNotFound
        ("Index " ++ toString i ++ " out of range for '" ++ name ++ "' in path: " ++ path)
    match value with
    | .list xs => if i < xs.length then .ok (.item i) else missing
    | _ => missing

/-- The steps of a segment: one for its name, and one more for its accessor. -/
def stepsOf (path : String) (current : Value) (segment : Segment) : Outcome (List Step) := do
  let first ← child path current segment.name
  match segment.accessor with
  | none => return [first]
  | some accessor =>
    let value ← current.read first
    let second ← access path segment.name value accessor
    return [first, second]

/-- The steps of several segments, each starting from what the one before led to. -/
def stepsFrom (path : String) (current : Value) : List Segment → Outcome (List Step)
  | [] => .ok []
  | [segment] => stepsOf path current segment
  | segment :: rest => do
    let steps ← stepsOf path current segment
    let value ← current.follow steps
    let more ← stepsFrom path value rest
    return steps ++ more

/-- The steps that segments make from a value; there has to be one segment at least. -/
def locate (path : String) (start : Value) (segments : List Segment) : Outcome (List Step) :=
  if segments.isEmpty then
    refuse .malformedPath ("Path needs at least one field after its root: " ++ path)
  else stepsFrom path start segments

end StoryWorld.Locate
