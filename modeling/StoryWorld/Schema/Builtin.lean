import StoryWorld.Schema.Catalogue

/-!
The names that are built into entities.

Every entity has operations and tables of its own under fixed names. No document can fill these
names: an extra field of the same name is kept and written out, but whoever looks the name up finds
what is built in. The extra fields as a whole can be reached under one of the names too, and what the
entity holds beside them under another.

Of the names with two underscores at either end only the two that tell what an entity holds and which
fields it was given are known here. Entities are taken to have no extra field under any other such
name, such as `__class__`, `__doc__` or `__pydantic_extra__`, nor under `_abc_impl`, by which a kind
keeps its register of subclasses.
-/

namespace StoryWorld

/-- What stands under a built-in name. -/
inductive Member where
  /-- An operation. One that is shared belongs to the kind, any other to each entity. -/
  | operation (shared : Bool)
  /-- A table that belongs to the kind. -/
  | table (entries : List (String × Value))
  /-- The set of the fields that an entity was given. What takes its place is attached to the entity,
  and only under the name that the entity itself has for it. -/
  | given (settable : Bool)
  /-- The extra fields of an entity, as one mapping. -/
  | extras
  /-- All else that an entity holds, as one mapping. What stands in it is guarded by nothing. -/
  | own

namespace Kind

/-- The operations of every entity that belong to the single entity. None of them is taken to be
called: what is put in the place of one changes nothing else. -/
def commonOperations : List String := [
  "copy", "dict", "json", "model_copy", "model_dump", "model_dump_json", "model_post_init",
  "_calculate_keys", "_copy_and_set_values", "_iter", "_setattr_handler"]

/-- The operations of every entity that belong to its kind. -/
def sharedOperations : List String := [
  "construct", "from_orm", "model_construct", "model_json_schema", "model_parametrized_name",
  "model_rebuild", "model_validate", "model_validate_json", "model_validate_strings", "parse_file",
  "parse_obj", "parse_raw", "schema", "schema_json", "update_forward_refs", "validate",
  "_get_value"]

/-- The operations that an entity of a kind has beyond those of every entity, and whether they
belong to the kind. -/
def ownOperations : Kind → List (String × Bool)
  | belief => [("_confidence_range", true)]
  | character => [("is_principal", false)]
  | relationship => [("other_end", false), ("touches", false)]
  | secret => [("involves", false)]
  | ledgerEntry => [("_non_negative", true)]
  | assets => [("check_ledger", false), ("ledger_entry", false), ("_unique_holders", false)]
  | _ => []

/-- The settings of a kind: unknown fields are kept, a field goes by either of its names, and what
is assigned is checked if the kind guards its fields. -/
def settings (kind : Kind) : List (String × Value) :=
  [("extra", .text "allow"), ("populate_by_name", .bool true)] ++
    if kind.guarded then [("validate_assignment", .bool true)] else []

/-- The table of the declared fields of a kind. What stands in it is no document value. -/
def fieldTable (kind : Kind) : List (String × Value) :=
  kind.fields.map fun f => (f.1.name, .builtin ⟨f.1.name, "FieldInfo", .kind kind⟩)

/-- The name under which an entity has all that it holds beside its extra fields. -/
def ownName : String := "__dict__"

/-- The name under which an entity has the set of the fields that it was given. -/
def givenName : String := "__pydantic_fields_set__"

/-- What stands under a name that is built into the entities of a kind. -/
def member? (kind : Kind) (name : String) : Option Member :=
  match Table.get? name kind.ownOperations with
  | some shared => some (.operation shared)
  | none =>
    if commonOperations.contains name then some (.operation false)
    else if sharedOperations.contains name then some (.operation true)
    else if name = "model_config" then some (.table kind.settings)
    else if name = "model_fields" then some (.table kind.fieldTable)
    else if name = "model_computed_fields" then some (.table [])
    else if name = "model_fields_set" then some (.given false)
    else if name = "model_extra" then some .extras
    else if name = ownName then some .own
    else if name = givenName then some (.given true)
    else none

end Kind

namespace Member

/-- The slot for what is put in the place of what a built-in name stands for, if that can be. -/
def slot? (member : Member) (name : String) : Option Slot :=
  match member with
  | operation _ | table _ => some (.attached name)
  | given settable => if settable then some .given else none
  | extras | own => none

/-- What a built-in name of an entity stands for. -/
def value (member : Member) (kind : Kind) (slots : List (Slot × Value)) (name : String) : Value :=
  match member with
  | operation shared =>
    .builtin ⟨name, "method", if shared then .kind kind else .entity []⟩
  | table entries => .mapping entries
  | given _ => (Table.get? .given slots).getD (.builtin ⟨name, "set", .entity []⟩)
  | extras => .mapping (Value.extras slots)
  | own => .mapping (Value.own slots)

end Member

end StoryWorld
