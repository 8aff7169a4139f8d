import StoryWorld.Schema.Validate

/-!
The strict comparison of conditions and removals.

A truth value is never equal to a number. An entity is compared with an object by reading the object
as an entity of the same kind; an object that does not fit is not equal.
-/

namespace StoryWorld.Value

/-- Whether two values are equal in a condition. It fails only where the object to compare with has
a number too large to be checked. -/
def strictEqual (left right : Value) : Outcome Bool :=
  if left.isBool != right.isBool then .ok false
  else
    match left, right with
    | entity kind slots, mapping es =>
      match Schema.validate kind.shape (.mapping es) with
      | .accepted v => .ok ((entity kind slots).equal v)
      | .rejected _ => .ok false
      | .overflow => .error .overflow
    | left, right => .ok (left.equal right)

/-- The position of the first value for which a test holds, each tested in turn. -/
def findFrom (test : Value → Outcome Bool) (position : Nat) : List Value → Outcome (Option Nat)
  | [] => .ok none
  | x :: xs => do
    if ← test x then return some position else findFrom test (position + 1) xs

end StoryWorld.Value
