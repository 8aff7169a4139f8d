import StoryWorld.Schema.Catalogue
import StoryWorld.Schema.Ledger
import StoryWorld.Schema.Numeral
import StoryWorld.Text.Blank
import StoryWorld.Text.Capital

/-!
Reading a document as a shape.

Every part of the document is read, so that a rejection names all its problems. A rule on a field
is checked only where the field itself was accepted, and a rule on an entity only where all its
fields were.
-/

namespace StoryWorld

namespace Rule

/-- The names of the levels of messages, from the least to the most serious. -/
def levels : List String :=
  ["TRACE", "DEBUG", "INFO", "SUCCESS", "WARNING", "ERROR", "CRITICAL"]

/-- The level that a text names, blanks and case aside. -/
def level? (s : String) : Option String :=
  let name := String.ofList (Text.capitalize (Text.trim s.toList))
  if levels.contains name then some name else none

/-- The texts of a list without blanks around them, blank ones left out. -/
def trimmedTexts : List Value → List Value
  | [] => []
  | .text s :: rest =>
    let trimmed := Text.trim s.toList
    if trimmed.isEmpty then trimmedTexts rest
    else .text (String.ofList trimmed) :: trimmedTexts rest
  | v :: rest => v :: trimmedTexts rest

/-- Whether a number is a balance: finite and not below zero. -/
def checkBalance (n : Number) : Verdict Value :=
  match n.finite? with
  | none => .overflow
  | some finite =>
    if finite && (Number.int 0).atMost n then .accepted (.number n) else .reject .rule

/-- Applies a rule to what a field was read as. -/
def check : Rule → Value → Verdict Value
  | unitInterval, .number n =>
    if (Number.int 0).atMost n && n.atMost (.int 1) then .accepted (.number n) else .reject .rule
  | chance, .number n =>
    if !n.atMost (.int 1) then .reject .tooLarge
    else if !(Number.int 0).atMost n then .reject .tooSmall
    else .accepted (.number n)
  | balance, .number n => checkBalance n
  | nonNegative, .number n =>
    if (Number.int 0).atMost n then .accepted (.number n) else .reject .rule
  | level, .text s =>
    match level? s with
    | some name => .accepted (.text name)
    | none => .reject .rule
  | statNames, .list xs =>
    let names := trimmedTexts xs
    if names.isEmpty then .reject .rule else .accepted (.list names)
  | _, v => .accepted v

/-- A text as an object with that expression. -/
def wrapExpression : Value → Value
  | .text s => .mapping [("expr", .text s)]
  | v => v

/-- Changes the form of what a document gives for a field, before it is read. -/
def prepare : Rule → Value → Value
  | bareExpressions, .list xs => .list (xs.map wrapExpression)
  | _, v => v

end Rule

namespace Schema

/-- The parts of a story that may come wrapped in an object with one key, and that key. -/
def wrappers : List (String × String) := [
  ("characters", "characters"), ("relationships", "edges"), ("secrets", "secrets"),
  ("threads", "threads"), ("factions", "factions"), ("assets", "assets")]

/-- The value inside an object whose only key is the given one, or the value itself. -/
def unwrap (key : String) : Value → Value
  | .mapping [(k, v)] => if k = key then v else .mapping [(k, v)]
  | v => v

/-- A story's document with the wrapped parts taken out of their objects. -/
def unwrapParts : List (String × Value) → List (String × Value)
  | [] => []
  | (name, v) :: rest =>
    (name, match Table.get? name wrappers with
      | some key => unwrap key v
      | none => v) :: unwrapParts rest

/-- Changes the form of a document before it is read as an entity. -/
def prepare (kind : Kind) (entries : List (String × Value)) : List (String × Value) :=
  match kind with
  | .worldState => unwrapParts entries
  | _ => entries

/-- Checks what holds of an entity as a whole: no holder has two ledger entries. -/
def checkWhole (kind : Kind) (slots : List (Slot × Value)) : Verdict Value :=
  match kind with
  | .assets =>
    match Ledger.flaw? (.entity kind slots) with
    | .ok none => .accepted (.entity kind slots)
    | _ => .reject .rule
  | _ => .accepted (.entity kind slots)

/-- The name under which a document gives a field, and what it gives. -/
def given? (names : List String) (entries : List (String × Value)) : Option (String × Value) :=
  names.findSome? fun name => (Table.get? name entries).map fun v => (name, v)

/-- The entries of a document that no field took. -/
def leftOver (fields : Fields) (entries : List (String × Value)) : List (String × Value) :=
  let taken := fields.filterMap fun f => (given? f.1.accepted entries).map Prod.fst
  entries.filter fun e => !taken.contains e.1

/-- What becomes of the entries that no field took. -/
def unknownSlots (kind : Kind) (rest : List (String × Value)) : Verdict (List (Slot × Value)) :=
  match kind.unknown with
  | .keep => .accepted (rest.map fun e => (.extra e.1, e.2))
  | .ignore => .accepted []
  | .forbid =>
    if rest.isEmpty then .accepted []
    else .rejected (rest.map fun e => ⟨[e.1], .extraForbidden⟩)

/-- Reads every item of a list, from the given position on. -/
def readItems (read : Value → Verdict Value) (position : Nat) : List Value → Verdict (List Value)
  | [] => .accepted []
  | x :: xs =>
    ((read x).under (toString position)).both (· :: ·) (readItems read (position + 1) xs)

/-- Reads every value of a mapping. -/
def readEntries (read : Value → Verdict Value) :
    List (String × Value) → Verdict (List (String × Value))
  | [] => .accepted []
  | (k, x) :: es => ((read x).under k).both (fun v vs => (k, v) :: vs) (readEntries read es)

mutual

/-- Reads a value as a shape. -/
def validate : Shape → Value → Verdict Value
  | .any, v => .accepted v
  | .text, v =>
    match v with
    | .text s => .accepted (.text s)
    | _ => .reject .textType
  | .whole, v => (Numeral.toWhole v).map Value.int
  | .real, v => (Numeral.toReal v).map Value.float
  | .truth, v => (Numeral.toTruth v).map Value.bool
  | .number, v => (Numeral.toNumber v).map Value.number
  | .choice options, v =>
    match v with
    | .text s => if options.contains s then .accepted (.text s) else .reject .choice
    | _ => .reject .choice
  | .list item, v =>
    match v with
    | .list xs => (readItems (fun x => validate item x) 0 xs).map Value.list
    | _ => .reject .listType
  | .mapping item, v =>
    match v with
    | .mapping es => (readEntries (fun x => validate item x) es).map Value.mapping
    | _ => .reject .mappingType
  | .optional inner, v =>
    match v with
    | .null => .accepted .null
    | v => validate inner v
  | .record kind fields, v =>
    match v with
    | .mapping es =>
      let entries := prepare kind es
      let declared := validateFields fields entries
      let extra := unknownSlots kind (leftOver fields entries)
      (declared.both (· ++ ·) extra).andThen (checkWhole kind)
    | _ => .reject .modelType

/-- Reads the declared fields of an entity, in their order. -/
def validateFields : Fields → List (String × Value) → Verdict (List (Slot × Value))
  | [], _ => .accepted []
  | (f, shape) :: rest, entries =>
    let slot : Verdict Value :=
      match given? f.accepted entries with
      | some (name, v) => ((validate shape (f.rule.prepare v)).andThen f.rule.check).under name
      | none =>
        match f.fallback with
        | some v => .accepted v
        | none => .rejected [⟨[f.accepted.headD f.name], .missing⟩]
    slot.both (fun v vs => (.field f.name, v) :: vs) (validateFields rest entries)

end

/-- Reads a document as an entity of a kind. -/
def read (kind : Kind) (document : Value) : Outcome Value :=
  (validate kind.shape document).outcome kind

end Schema

end StoryWorld
