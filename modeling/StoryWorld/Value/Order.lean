import StoryWorld.Value.Equality
import StoryWorld.Value.Display
import StoryWorld.Fault

/-!
Order and arithmetic of values that are not known to be numbers.

A field may have come to hold any document value, so what compares or adds fields has to say what
it does with every type. Numbers and truth values are ordered by value, texts by code point, lists
by their first difference; everything else fails.
-/

namespace StoryWorld

/-- The order relations. -/
inductive Relation where
  | lt | le | gt | ge
  deriving DecidableEq, Repr

namespace Relation

/-- Whether a relation holds of two things in the given order. -/
def holdsOf : Relation → Ordering → Bool
  | lt, o => o == .lt
  | le, o => o != .gt
  | gt, o => o == .gt
  | ge, o => o != .lt

/-- Whether a relation holds of two numbers; never if one of them stands for no number. -/
def ofNumbers (r : Relation) (a b : Number) : Bool := (a.compare? b).any r.holdsOf

/-- Whether a relation holds of two texts, by code point. -/
def ofTexts (r : Relation) (a b : String) : Bool := r.holdsOf (compare a b)

end Relation

namespace Value

/-- A number or truth value as a number. -/
def numeric? : Value → Option Number
  | number n => some n
  | bool b => some (ofBool b)
  | _ => none

mutual

/-- Whether a relation holds of two values. -/
def holds (r : Relation) : Value → Value → Outcome Bool
  | text a, v =>
    match v with
    | text b => .ok (r.ofTexts a b)
    | _ => .error .wrongType
  | list xs, v =>
    match v with
    | list ys => holdsItems r xs ys
    | _ => .error .wrongType
  | number a, v =>
    match numeric? v with
    | some b => .ok (r.ofNumbers a b)
    | none => .error .wrongType
  | bool a, v =>
    match numeric? v with
    | some b => .ok (r.ofNumbers (ofBool a) b)
    | none => .error .wrongType
  | _, _ => .error .wrongType

/-- Whether a relation holds of two lists: their first difference decides, and else the length. -/
def holdsItems (r : Relation) : List Value → List Value → Outcome Bool
  | [], [] => .ok (r.holdsOf .eq)
  | [], _ :: _ => .ok (r.holdsOf .lt)
  | _ :: _, [] => .ok (r.holdsOf .gt)
  | x :: xs, y :: ys => if equal x y then holdsItems r xs ys else holds r x y

end

/-- The sum of two numbers, or two texts or lists one after the other. -/
def plus : Value → Value → Outcome Value
  | text a, text b => .ok (.text (a ++ b))
  | list xs, list ys => .ok (.list (xs ++ ys))
  | a, b =>
    match numeric? a, numeric? b with
    | some x, some y => (Outcome.ofSize (x.add? y)).map Value.number
    | _, _ => .error .wrongType

/-- The product of a value with a float. -/
def times (a : Value) (x : Float) : Outcome Value :=
  match numeric? a with
  | some n => (Outcome.ofSize (n.mul? (.float x))).map Value.number
  | none => .error .wrongType

/-- The value with the other sign. -/
def minus (a : Value) : Outcome Value :=
  match numeric? a with
  | some n => .ok (.number n.neg)
  | none => .error .wrongType

/-- What a loop over a value goes through: the items of a list, the keys of a mapping, the
characters of a text. -/
def iterate : Value → Outcome (List Value)
  | list xs => .ok xs
  | mapping es => .ok (es.map fun e => .text e.1)
  | text s => .ok (s.toList.map fun c => .text (String.ofList [c]))
  | _ => .error .wrongType

/-- Whether a value can be a key or a member of a set. -/
def isKey : Value → Bool
  | list _ | mapping _ | entity _ _ => false
  | _ => true

/-- Whether a value is among those that another holds. -/
def member (v : Value) : Value → Outcome Bool
  | list xs => .ok (xs.any fun x => x.equal v)
  | mapping es =>
    if v.isKey then .ok (es.any fun e => (Value.text e.1).equal v) else .error .wrongType
  | text s =>
    match v with
    | text part => .ok (Text.occursIn part.toList s.toList)
    | _ => .error .wrongType
  | _ => .error .wrongType

/-- The declared field of an entity; anything else has no fields. -/
def get (name : String) (v : Value) : Outcome Value :=
  match v.field? name with
  | some x => .ok x
  | none => .error .noField

/-- The value of a key of a mapping, or `default` if it is absent; anything else has no keys. -/
def getKey (v : Value) (key : String) (default : Value) : Outcome Value :=
  match v with
  | mapping es => .ok ((Table.get? key es).getD default)
  | _ => .error .noField

end Value

end StoryWorld
