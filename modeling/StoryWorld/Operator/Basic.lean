import StoryWorld.Delta.Basic
import StoryWorld.Expression.Prerequisite

/-!
Operators: moves of the story that can be made again and again, and collections of them.

An operator has conditions, which have to hold for the bound roles, and effects, which are deltas.
What else its document says is kept with it.
-/

namespace StoryWorld

/-- The types of operator. -/
inductive OperatorType where
  | thriller | soap
  deriving DecidableEq, Repr

/-- The name of a type. -/
def OperatorType.name : OperatorType → String
  | thriller => "thriller"
  | soap => "soap"

/-- The type of a name. -/
def OperatorType.ofName? (s : String) : Option OperatorType :=
  [OperatorType.thriller, .soap].find? fun t => t.name == s

/-- A move of the story. `record` is the whole entity that it was read from. -/
structure Operator where
  id : String
  tags : List Value
  prerequisites : List Prerequisite
  effects : List Delta
  record : Value

namespace Operator

/-- The operator of an entity that was read as one. -/
def ofEntity (v : Value) : Operator where
  id := (v.field "id").textOr ""
  tags := (v.field "tags").items
  prerequisites := (v.field "prereqs").items.map Prerequisite.ofEntity
  effects := (v.field "effects").items.map Delta.ofEntity
  record := v

/-- Reads a document as an operator. -/
def read (document : Value) : Outcome Operator := (Schema.read .operator document).map ofEntity

/-- The operator as a document. -/
def dump (op : Operator) : Value := op.record.dump

/-- Whether an operator is of a type. -/
def hasType (t : OperatorType) (op : Operator) : Bool :=
  (op.record.field "type").equal (.text t.name)

end Operator

/-- A collection of operators. -/
structure Catalogue where
  operators : List Operator

namespace Catalogue

/-- Reads a document as a collection of operators. -/
def read (document : Value) : Outcome Catalogue := do
  let v ← Schema.read .operatorCatalog document
  return ⟨(v.field "operators").items.map Operator.ofEntity⟩

/-- The operator of an id. -/
def get? (c : Catalogue) (id : Value) : Option Operator :=
  c.operators.find? fun op => (Value.text op.id).equal id

/-- The operators of a type that is given by name. -/
def byType (c : Catalogue) (name : Value) : Outcome (List Operator) :=
  match OperatorType.ofName? (name.textOr "") with
  | some t => .ok (c.operators.filter (Operator.hasType t))
  | none => .error .unknownName

/-- The operators that have at least one of the tags. -/
def byTags (c : Catalogue) (tags : Value) : Outcome (List Operator) := do
  let wanted ← tags.iterate
  if wanted.all Value.isKey then
    return c.operators.filter fun op => op.tags.any fun tag => wanted.any (tag.equal ·)
  else .error .wrongType

end Catalogue

end StoryWorld
