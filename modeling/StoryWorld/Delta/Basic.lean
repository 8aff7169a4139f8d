import StoryWorld.Schema.Validate
import StoryWorld.Path.Place

/-!
Deltas: single changes to a story.

A delta names an operation and, for all operations but the transfer, the path it works on. A
transfer moves money between two holders of the cash ledger.
-/

namespace StoryWorld

/-- The operations of deltas. -/
inductive DeltaOp where
  | set | add | subtract | multiply | append | remove | transfer
  deriving DecidableEq, Repr

namespace DeltaOp

/-- The name of an operation. -/
def name : DeltaOp → String
  | set => "set"
  | add => "add"
  | subtract => "subtract"
  | multiply => "multiply"
  | append => "append"
  | remove => "remove"
  | transfer => "transfer"

/-- The operation of a name. -/
def ofName? (s : String) : Option DeltaOp :=
  [set, add, subtract, multiply, append, remove, transfer].find? fun op => op.name == s

end DeltaOp

/-- A change to a story. `pattern` is what an item has to match to be removed. -/
structure Delta where
  op : DeltaOp
  path : String
  value : Value
  pattern : Option (List (String × Value))
  source : Option String
  target : Option String
  amount : Option Number

namespace Delta

/-- The text of a value that is one. -/
def text? : Value → Option String
  | .text s => some s
  | _ => none

/-- The delta of an entity that was read as one. -/
def ofEntity (v : Value) : Delta where
  op := (DeltaOp.ofName? ((v.field "op").textOr "")).getD .set
  path := (v.field "path").textOr ""
  value := v.field "value"
  pattern := match v.field "match" with
    | .mapping es => some es
    | _ => none
  source := text? (v.field "from_")
  target := text? (v.field "to")
  amount := (v.field "amount").number?

/-- Reads a document as a delta. -/
def read (document : Value) : Outcome Delta := (Schema.read .delta document).map ofEntity

/-- Reads several documents as deltas; the first that does not fit decides. -/
def readAll : List Value → Outcome (List Delta)
  | [] => .ok []
  | document :: rest => do
    let delta ← read document
    let deltas ← readAll rest
    return delta :: deltas

/-- A text that may be missing, as a value. -/
def optionalText : Option String → Value
  | some s => .text s
  | none => .null

/-- The entries of a delta's document. -/
def entries (delta : Delta) : List (String × Value) := [
  ("op", .text delta.op.name),
  ("path", .text delta.path),
  ("value", delta.value.dump),
  ("match", match delta.pattern with
    | some es => (Value.mapping es).dump
    | none => .null),
  ("from", optionalText delta.source),
  ("to", optionalText delta.target),
  ("amount", match delta.amount with
    | some n => .number n
    | none => .null)]

/-- A delta as a document. -/
def dump (delta : Delta) : Value := .mapping delta.entries

/-- The delta with its path written out for bound roles. -/
def expand (bindings : Bindings) (delta : Delta) : Delta :=
  { delta with path := bindings.expand delta.path }

end Delta

/-- The scene that changes belong to and the reason for them. -/
structure Tag where
  scene : Option String
  reason : Option String
  deriving DecidableEq, Repr

/-- A delta that was made, with its tag. -/
structure Committed where
  delta : Delta
  tag : Tag

/-- A delta that was made, as a document. -/
def Committed.dump (c : Committed) : Value :=
  .mapping (c.delta.entries ++
    [("scene_id", Delta.optionalText c.tag.scene), ("reason", Delta.optionalText c.tag.reason)])

end StoryWorld
