import StoryWorld.Path.Step
import StoryWorld.Schema.Validate

/-!
Assigning to a place of a value.

Most places take any value. Ledger entries and assets guard their fields: a new value is read as
the field's shape first, and assets check the ledger as a whole after the value is in place. If only
that last check fails, the assignment fails and the value stays. What an entity holds can also be
replaced past its guards, by the built-in name for it.

An entity adds the name of every declared field that is assigned to the set of the fields that it was
given. If something else took the place of that set, this fails: with the value in place, unless the
entity guards its fields.
-/

namespace StoryWorld

namespace Assign

/-- Names that start with an underscore are never written out: what is assigned to one is attached
to the entity beside its document. -/
def isPrivate (name : String) : Bool := name.toList.head? == some '_'

/-- Whether a slot is part of the document of its entity. -/
def documented (e : Slot × Value) : Bool :=
  match e.1 with
  | .attached _ | .given => false
  | _ => true

/-- Whether an entity still has the set of the fields that it was given. -/
def notes (slots : List (Slot × Value)) : Bool := !Table.has .given slots

/-- Puts a value into a slot of a guarded entity and checks the entity as a whole. The value stays
even if that check fails. -/
def settle (kind : Kind) (slots : List (Slot × Value)) (slot : Slot) (value : Value) :
    Value × Outcome Unit :=
  if notes slots then
    let slots := Table.put slot value (slots.filter documented)
    (.entity kind slots, (Schema.checkWhole kind slots).map (fun _ => ()) |>.outcome kind)
  else (.entity kind slots, .error .wrongType)

/-- Assigns to a declared field of a guarded entity. -/
def guardedField (kind : Kind) (slots : List (Slot × Value)) (name : String) (value : Value) :
    Value × Outcome Unit :=
  match kind.field? name with
  | none => (.entity kind slots, .error .noField)
  | some (field, shape) =>
    match ((Schema.validate shape value).andThen field.rule.check).under name with
    | .accepted v => settle kind slots (.field name) v
    | .rejected problems => (.entity kind slots, .error (.invalid ⟨kind, problems⟩))
    | .overflow => (.entity kind slots, .error .overflow)

/-- Assigns to a declared field of an entity that guards none. The value stays even if the field
cannot be noted as given. -/
def openField (kind : Kind) (slots : List (Slot × Value)) (name : String) (value : Value) :
    Value × Outcome Unit :=
  (.entity kind (Table.put (.field name) value slots),
    if notes slots then .ok () else .error .noField)

/-- The slot that an entity of a kind has for a name of its own. -/
def ownSlot (kind : Kind) (name : String) : Slot :=
  if (kind.field? name).isSome then .field name else .attached name

/-- Replaces all that an entity holds beside its extra fields. Nothing guards this. -/
def replaceOwn (kind : Kind) (slots : List (Slot × Value)) (value : Value) :
    Value × Outcome Unit :=
  match value with
  | .mapping es =>
    let held := es.map fun e => (ownSlot kind e.1, e.2)
    (.entity kind (held ++ slots.filter (!·.1.isOwn)), .ok ())
  | _ => (.entity kind slots, .error .wrongType)

/-- Assigns to a place of an entity under a built-in name. -/
def toBuiltin (kind : Kind) (slots : List (Slot × Value)) (name : String) (value : Value) :
    Value × Outcome Unit :=
  match kind.member? name with
  | some .own => replaceOwn kind slots value
  | some member =>
    match member.slot? name with
    | none => (.entity kind slots, .error .noField)
    | some slot =>
      if kind.guarded && !isPrivate name then settle kind slots (.extra name) value
      else (.entity kind (Table.put slot value slots), .ok ())
  | none => (.entity kind slots, .error .noField)

/-- Assigns to a place of an entity. -/
def toEntity (kind : Kind) (slots : List (Slot × Value)) (step : Step) (value : Value) :
    Value × Outcome Unit :=
  match step with
  | .slot (.field name) =>
    if kind.guarded then guardedField kind slots name value else openField kind slots name value
  | .slot (.extra name) =>
    if isPrivate name then (.entity kind (Table.put (.attached name) value slots), .ok ())
    else if kind.guarded then settle kind slots (.extra name) value
    else (.entity kind (Table.put (.extra name) value slots), .ok ())
  | .slot slot => (.entity kind (Table.put slot value slots), .ok ())
  | .builtin name => toBuiltin kind slots name value
  | _ => (.entity kind slots, .error .noField)

/-- Assigns to the place that a step leads to: the value afterwards, and whether it worked. -/
def assign (container : Value) (step : Step) (value : Value) : Value × Outcome Unit :=
  match container with
  | .entity kind slots => toEntity kind slots step value
  | w => (w.put step value, .ok ())

end Assign

end StoryWorld
