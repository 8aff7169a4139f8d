import StoryWorld.Value.Basic

/-!
Shapes: what a field of an entity may hold.

The shape of an entity carries the shapes of its fields, so a shape is a finite tree and reading a
document by it ends with the tree. What the fields cannot say one by one is left to rules.
-/

namespace StoryWorld

/-- A condition on a field beyond its shape, or a change of form before it is read. -/
inductive Rule where
  | free
  /-- A float from 0 to 1. -/
  | unitInterval
  /-- A chance: not above 1 and not below 0. -/
  | chance
  /-- A finite number, not below zero. -/
  | balance
  /-- A whole number, not below zero. -/
  | nonNegative
  /-- The name of a level of messages, brought into capitals. -/
  | level
  /-- The names of at least one stat, blanks left out. -/
  | statNames
  /-- A list in which a text stands for an object with that expression. -/
  | bareExpressions
  deriving DecidableEq, Repr

/-- A field of an entity: its name inside, its name in documents, the names a document may give it
by, the one that counts first, and what it holds if the document does not say. -/
structure Field where
  name : String
  external : String
  accepted : List String
  fallback : Option Value
  rule : Rule

/-- What a value has to look like. -/
inductive Shape where
  | any | text | whole | real | truth | number
  | choice (options : List String)
  | list (item : Shape)
  | mapping (item : Shape)
  | optional (inner : Shape)
  | record (kind : Kind) (fields : List (Field × Shape))

namespace Shape

/-- A field with one name. -/
def plain (name : String) (shape : Shape) (fallback : Option Value) : Field × Shape :=
  (⟨name, name, [name], fallback, .free⟩, shape)

/-- A field that every document has to give. -/
def required (name : String) (shape : Shape) : Field × Shape := plain name shape none

/-- A field with a value of its own where the document gives none. -/
def withDefault (name : String) (shape : Shape) (fallback : Value) : Field × Shape :=
  plain name shape (some fallback)

/-- A field that is null where the document does not give it. -/
def nullable (name : String) (inner : Shape) : Field × Shape :=
  plain name (optional inner) (some .null)

/-- A list, empty where the document does not give it. -/
def many (name : String) (item : Shape) : Field × Shape :=
  plain name (list item) (some (.list []))

/-- A mapping, empty where the document does not give it. -/
def named (name : String) (item : Shape) : Field × Shape :=
  plain name (mapping item) (some (.mapping []))

/-- The field with a rule. -/
def ruled (rule : Rule) (f : Field × Shape) : Field × Shape := ({ f.1 with rule := rule }, f.2)

/-- The field under another name in documents; its name inside is accepted too, after that. -/
def called (external : String) (f : Field × Shape) : Field × Shape :=
  ({ f.1 with external := external, accepted := [external, f.1.name] }, f.2)

/-- The field with a second name in documents, which counts if the first is not there. -/
def orCalled (second : String) (f : Field × Shape) : Field × Shape :=
  ({ f.1 with accepted := f.1.accepted ++ [second] }, f.2)

/-- The entity of a kind that an empty document gives. -/
def blank (kind : Kind) (fields : List (Field × Shape)) : Value :=
  .entity kind (fields.map fun f => (.field f.1.name, f.1.fallback.getD .null))

/-- An entity of a kind that may be left out of a document. -/
def part (name : String) (kind : Kind) (fields : List (Field × Shape)) : Field × Shape :=
  plain name (record kind fields) (some (blank kind fields))

end Shape

end StoryWorld
