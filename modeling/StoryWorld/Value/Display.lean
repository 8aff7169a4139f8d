import StoryWorld.Fault
import StoryWorld.Text.Digit
import StoryWorld.Text.Lines
import StoryWorld.Text.Quoted

/-!
Values as messages show them.

`quoted` is the form inside a message or inside another value, with texts in quotes; `shown` is the
form of a value on its own, where a text stands for itself. A whole number with more digits than
the longest numeral has no form.
-/

namespace StoryWorld.Value

/-- The separator of items and entries. -/
def comma : List Char := [',', ' ']

mutual

/-- The form of a value inside a message. -/
def quoted : Value → List Char
  | null => "None".toList
  | bool b => if b then "True".toList else "False".toList
  | number n => n.message
  | text s => Text.quoted s.toList
  | list xs => '[' :: (Text.join comma (quotedItems xs) ++ [']'])
  | mapping es => '{' :: (Text.join comma (quotedEntries es) ++ ['}'])
  | entity kind slots =>
    kind.name.toList ++ '(' :: (Text.join comma (quotedSlots slots) ++ [')'])
  | builtin b => '<' :: (b.name.toList ++ ['>'])

/-- The forms of the items of a list. -/
def quotedItems : List Value → List (List Char)
  | [] => []
  | x :: xs => quoted x :: quotedItems xs

/-- The forms of the entries of a mapping: the key in quotes, a colon, the value. -/
def quotedEntries : List (String × Value) → List (List Char)
  | [] => []
  | (k, x) :: es => (Text.quoted k.toList ++ ':' :: ' ' :: quoted x) :: quotedEntries es

/-- The forms of the slots of an entity: the name, an equals sign, the value. -/
def quotedSlots : List (Slot × Value) → List (List Char)
  | [] => []
  | (.field name, x) :: rest => (name.toList ++ '=' :: quoted x) :: quotedSlots rest
  | (.extra name, x) :: rest => (name.toList ++ '=' :: quoted x) :: quotedSlots rest
  | (.attached _, _) :: rest | (.given, _) :: rest => quotedSlots rest

end

mutual

/-- Whether a value holds a whole number with more digits than the longest numeral. -/
def holdsLongNumeral : Value → Bool
  | number (.int n) => Text.numeralLimit < (toString n.natAbs).length
  | list xs => itemsHoldLongNumeral xs
  | mapping es => entriesHoldLongNumeral es
  | entity _ slots => slotsHoldLongNumeral slots
  | _ => false

/-- Whether an item holds such a number. -/
def itemsHoldLongNumeral : List Value → Bool
  | [] => false
  | x :: xs => holdsLongNumeral x || itemsHoldLongNumeral xs

/-- Whether a value of a mapping holds such a number. -/
def entriesHoldLongNumeral : List (String × Value) → Bool
  | [] => false
  | (_, x) :: es => holdsLongNumeral x || entriesHoldLongNumeral es

/-- Whether a slot holds such a number. -/
def slotsHoldLongNumeral : List (Slot × Value) → Bool
  | [] => false
  | (_, x) :: rest => holdsLongNumeral x || slotsHoldLongNumeral rest

end

/-- The form of a value on its own. -/
def shown : Value → List Char
  | text s => s.toList
  | entity _ slots => Text.join [' '] (quotedSlots slots)
  | v => v.quoted

/-- The form of a value inside a message, as a string. -/
def quotedText (v : Value) : String := String.ofList v.quoted

/-- The form of a value on its own, as a string. -/
def shownText (v : Value) : String := String.ofList v.shown

/-- The form of a value on its own, if it has one. -/
def tryShown (v : Value) : Outcome (List Char) :=
  if v.holdsLongNumeral then .error .badNumeral else .ok v.shown

end StoryWorld.Value
