import StoryWorld.Value.Basic

/-!
When two values count as equal.

Numbers are equal by value, whole or not, and inside a comparison a truth value counts as the
number 0 or 1. Lists are equal item by item, mappings key by key in any order. Entities are equal
if they are of one kind with equal declared and extra fields; what is attached to them does not
count. What is built in is equal only to itself. The strict comparison of conditions differs at
the top only, where a truth value is never a number. A NaN is equal to none, nor to itself: values
have no identity beside what they are, by which the same one could be told in two places.
-/

namespace StoryWorld

/-- Whether a slot counts when entities are compared. -/
def Slot.counts : Slot → Bool
  | .attached _ | .given => false
  | _ => true

namespace Value

/-- A truth value as a number, for comparison. -/
def ofBool (b : Bool) : Number := .int (if b then 1 else 0)

mutual

/-- Equality by value. -/
def equal : Value → Value → Bool
  | null, null => true
  | bool a, bool b => a == b
  | bool a, number y => (ofBool a).equal y
  | number x, bool b => x.equal (ofBool b)
  | number x, number y => x.equal y
  | text a, text b => a == b
  | list xs, list ys => equalItems xs ys
  | mapping xs, mapping ys => xs.length == ys.length && equalEntries xs ys
  | entity k xs, entity l ys =>
    k == l && (xs.countP (Slot.counts ·.1) == ys.countP (Slot.counts ·.1)) && equalSlots xs ys
  | builtin a, builtin b => a == b
  | _, _ => false

/-- Equality of lists, item by item. -/
def equalItems : List Value → List Value → Bool
  | [], [] => true
  | x :: xs, y :: ys => equal x y && equalItems xs ys
  | _, _ => false

/-- Whether every entry has an equal one under the same key of the other table. -/
def equalEntries : List (String × Value) → List (String × Value) → Bool
  | [], _ => true
  | (k, x) :: xs, ys =>
    (match Table.get? k ys with
      | some y => equal x y
      | none => false) && equalEntries xs ys

/-- Whether every slot that counts has an equal one in the other entity. -/
def equalSlots : List (Slot × Value) → List (Slot × Value) → Bool
  | [], _ => true
  | (s, x) :: xs, ys =>
    (!s.counts ||
      match Table.get? s ys with
      | some y => equal x y
      | none => false) && equalSlots xs ys

end

/-- Whether a value is a truth value. -/
def isBool : Value → Bool
  | bool _ => true
  | _ => false

end Value

end StoryWorld
