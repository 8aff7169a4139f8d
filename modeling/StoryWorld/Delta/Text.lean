import StoryWorld.Delta.Basic
import StoryWorld.Json.Tolerant
import StoryWorld.Path.Locate

/-!
Lists of items in texts: the deltas, or the prerequisites, that a writer of prose gives.

The text holds a list, or an object with the list under one of a few keys.
-/

namespace StoryWorld

/-- The list under the first of several keys that has one. -/
def listUnder? (entries : List (String × Value)) (keys : List String) : Option (List Value) :=
  keys.findSome? fun key =>
    match Table.get? key entries with
    | some (.list xs) => some xs
    | _ => none

/-- The items of a document: those of a list, or of the list under one of the keys. -/
def documentItems (document : Value) (keys : List String) : Outcome (List Value) :=
  match document with
  | .list xs => .ok xs
  | .mapping es =>
    match listUnder? es keys with
    | some xs => .ok xs
    | none =>
      refuse .invalidDelta
        ("Expected a JSON array or an object with one of: " ++ ", ".intercalate keys)
  | v => refuse .invalidDelta ("Expected a JSON array, got " ++ Locate.typeName v)

/-- A failure to read an item, as the refusal of the text it came in. -/
def refuseText (what : String) : Fault → Fault
  | .invalid report =>
    .refused .invalidDelta ("Invalid " ++ what ++ " document: " ++ report.summary)
  | fault => fault

namespace Delta

/-- The deltas in a text. -/
def parseText (text : List Char) : Outcome (List Delta) := do
  let document ← Json.load text
  let items ← documentItems document ["effects", "deltas"]
  (readAll items).mapError (refuseText "delta")

end Delta

end StoryWorld
