import StoryWorld.Schema.Catalogue
import StoryWorld.Fault

/-!
Entities written as documents.

`dump` writes a value as it is, each declared field under its name in documents, then the extra
fields; what is attached to an entity is left out. `stored` is the form that is saved: it differs
where a field declared as a number holds another type, which is brought to the declared one, and it
refuses a value that nests too deep where its shape does not say what it holds.
-/

namespace StoryWorld

namespace Value

mutual

/-- A value as a document: entities become mappings. -/
def dump : Value → Value
  | list xs => list (dumpItems xs)
  | mapping es => mapping (dumpEntries es)
  | entity kind slots => mapping (dumpSlots kind slots)
  | v => v

/-- The items of a list as documents. -/
def dumpItems : List Value → List Value
  | [] => []
  | x :: xs => dump x :: dumpItems xs

/-- The values of a mapping as documents. -/
def dumpEntries : List (String × Value) → List (String × Value)
  | [] => []
  | (k, x) :: es => (k, dump x) :: dumpEntries es

/-- The slots of an entity as the entries of a document. -/
def dumpSlots (kind : Kind) : List (Slot × Value) → List (String × Value)
  | [] => []
  | (.field name, x) :: rest => (kind.external name, dump x) :: dumpSlots kind rest
  | (.extra name, x) :: rest => (name, dump x) :: dumpSlots kind rest
  | (.attached _, _) :: rest | (.given, _) :: rest => dumpSlots kind rest

/-- How many levels a value has: one for itself, and those of what is deepest inside. -/
def levels : Value → Nat
  | list xs => levelsOfItems xs + 1
  | mapping es => levelsOfEntries es + 1
  | entity _ slots => levelsOfSlots slots + 1
  | _ => 1

/-- The levels of the deepest item. -/
def levelsOfItems : List Value → Nat
  | [] => 0
  | x :: xs => max (levels x) (levelsOfItems xs)

/-- The levels of the deepest value of a mapping. -/
def levelsOfEntries : List (String × Value) → Nat
  | [] => 0
  | (_, x) :: es => max (levels x) (levelsOfEntries es)

/-- The levels of the deepest slot. -/
def levelsOfSlots : List (Slot × Value) → Nat
  | [] => 0
  | (_, x) :: rest => max (levels x) (levelsOfSlots rest)

end

end Value

namespace Schema

/-- The stored forms of the items of a list. -/
def storedItems (store : Value → Outcome Value) : List Value → Outcome (List Value)
  | [] => .ok []
  | x :: xs => do
    let v ← store x
    let vs ← storedItems store xs
    return v :: vs

/-- The stored forms of the values of a mapping. -/
def storedEntries (store : Value → Outcome Value) :
    List (String × Value) → Outcome (List (String × Value))
  | [] => .ok []
  | (k, x) :: es => do
    let v ← store x
    let vs ← storedEntries store es
    return (k, v) :: vs

/-- A value that its shape says nothing about may have this many levels to be saved. -/
def storedLevels : Nat := 255

/-- The levels that are left where an entity of a kind is expected. A rule of the constraints takes
one itself. -/
def levelsUnder (room : Nat) : Kind → Nat
  | .constraintRule => room - 1
  | _ => room

/-- The stored form of a value that its shape says nothing about: the value as it is, unless it has
too many levels. -/
def storedFreely (room : Nat) (v : Value) : Outcome Value :=
  if room < v.levels then .error .tooDeep else .ok v.dump

/-- A truth value as the whole number 0 or 1. -/
def storedWhole (room : Nat) : Value → Outcome Value
  | .bool b => .ok (.int (if b then 1 else 0))
  | v => storedFreely room v

/-- A number or truth value as a float. -/
def storedReal (room : Nat) : Value → Outcome Value
  | .bool b => .ok (.float (if b then 1.0 else 0.0))
  | .number (.int n) => (Outcome.ofSize (Binary.ofInt? n)).map Value.float
  | v => storedFreely room v

mutual

/-- The stored form of a value in a field of the given shape. A value of another form than the
shape is written as it is. -/
def storedIn (room : Nat) : Shape → Value → Outcome Value
  | .whole, v => storedWhole room v
  | .number, v => storedWhole room v
  | .real, v => storedReal room v
  | .list item, v =>
    match v with
    | .list xs => (storedItems (fun x => storedIn room item x) xs).map Value.list
    | v => storedFreely room v
  | .mapping item, v =>
    match v with
    | .mapping es => (storedEntries (fun x => storedIn room item x) es).map Value.mapping
    | v => storedFreely room v
  | .optional inner, v =>
    match v with
    | .null => .ok .null
    | v => storedIn room inner v
  | .record kind fields, v =>
    let room := levelsUnder room kind
    match v with
    | .entity k slots =>
      if k = kind then do
        let declared ← storedFields room fields slots
        let extra ← storedEntries (storedFreely room) (Value.extras slots)
        return .mapping (declared ++ extra)
      else storedFreely room v
    | v => storedFreely room v
  | _, v => storedFreely room v

/-- The stored forms of the declared fields of an entity. -/
def storedFields (room : Nat) :
    Fields → List (Slot × Value) → Outcome (List (String × Value))
  | [], _ => .ok []
  | (f, shape) :: rest, slots =>
    match Table.get? (.field f.name) slots with
    | some x => do
      let v ← storedIn room shape x
      let vs ← storedFields room rest slots
      return (f.external, v) :: vs
    | none => storedFields room rest slots

end

/-- The stored form of a value of the given shape. -/
def stored (shape : Shape) (v : Value) : Outcome Value := storedIn storedLevels shape v

end Schema

end StoryWorld
