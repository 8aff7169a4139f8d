import StoryWorld.Expression.Context
import StoryWorld.Expression.Parser
import StoryWorld.Journal
import StoryWorld.Schema.Comparison

/-!
Evaluating expressions.

Arithmetic needs numbers, and a quotient by zero is zero. Equality is strict about truth values; the
other comparisons need two numbers or two texts. An expression as a whole has to come out as a
number or a truth value.
-/

namespace StoryWorld.Expr

/-- Two numbers, as the operands of a sign. -/
def numbers (sign : Char) (left right : Value) : Outcome (Number × Number) :=
  match left.number?, right.number? with
  | some a, some b => .ok (a, b)
  | _, _ =>
    refuse .typeMismatch
      ("'" ++ String.ofList [sign] ++ "' requires numeric operands, got " ++ left.category.name ++
        " and " ++ right.category.name)

/-- The quotient of two numbers; zero if the second is. -/
def quotient (a b : Number) : Outcome Number :=
  if b.isZero then .ok (.int 0) else (Outcome.ofSize (a.div? b)).map Number.float

/-- The result of an operation of arithmetic. -/
def calculate (op : ArithmeticOp) (left right : Value) : Outcome Value := do
  let (a, b) ← numbers op.sign left right
  let n ← match op with
    | .add => Outcome.ofSize (a.add? b)
    | .sub => Outcome.ofSize (a.sub? b)
    | .mul => Outcome.ofSize (a.mul? b)
    | .div => quotient a b
  return .number n

/-- The order relation of a comparison, where it is one of order. -/
def relation? : ComparisonOp → Option Relation
  | .gt => some .gt
  | .lt => some .lt
  | .ge => some .ge
  | .le => some .le
  | _ => none

/-- Compares two values by an order relation. -/
def order (op : ComparisonOp) (r : Relation) (left right : Value) : Outcome Bool :=
  match left, right with
  | .number a, .number b => .ok (r.ofNumbers a b)
  | .text a, .text b => .ok (r.ofTexts a b)
  | _, _ =>
    refuse .typeMismatch
      ("'" ++ String.ofList op.sign ++ "' cannot compare " ++ left.category.name ++ " with " ++
        right.category.name)

/-- Compares two values. -/
def compareValues (op : ComparisonOp) (left right : Value) : Outcome Bool :=
  match relation? op with
  | some r => order op r left right
  | none => do
    let same ← left.strictEqual right
    return if op = .eq then same else !same

/-- Whether a list has an item, or a text a part. -/
def contains (haystack needle : Value) : Outcome Bool :=
  match haystack with
  | .list xs => (Value.findFrom (fun x => x.strictEqual needle) 0 xs).map Option.isSome
  | .text s => needle.tryShown.map fun part => Text.occursIn part s.toList
  | v => refuse .typeMismatch ("'includes' requires a sequence, got " ++ v.category.name)

/-- Whether a path leads to something other than null. A place that is not there is not present;
anything else that is wrong with the path is a failure. -/
def isPresent (context : Context) (ref : PathRef) : Outcome Bool :=
  match context.resolve ref with
  | .ok v => .ok (v.category != .null)
  | .error (.refused .pathNotFound _) => .ok false
  | .error fault => .error fault

/-- The value of an expression. -/
def value (context : Context) : Expr → Outcome Value
  | literal l => .ok l.value
  | path ref => context.resolve ref
  | negate operand => do
    let v ← value context operand
    match v.number? with
    | some n => return .number n.neg
    | none =>
      refuse .typeMismatch ("Unary '-' requires a number, got " ++ v.category.name)
  | arithmetic op left right => do
    let a ← value context left
    let b ← value context right
    calculate op a b
  | comparison op left right => do
    let a ← value context left
    let b ← value context right
    return .bool (← compareValues op a b)
  | present ref => (isPresent context ref).map Value.bool
  | includes ref needle => do
    let haystack ← context.resolve ref
    let v ← value context needle
    return .bool (← contains haystack v)

/-- The value of an expression as a whole. -/
def result (context : Context) (e : Expr) : Outcome Value := do
  let v ← value context e
  match v with
  | .bool _ | .number _ => return v
  | _ =>
    refuse .typeMismatch
      ("Expression must yield a boolean or number, got " ++ v.category.name)

/-- What an expression comes to: a value, or the reason why it has none. -/
inductive Finding where
  | value (v : Value)
  | failure (code : Code) (message : String)

/-- The line about an expression that failed. -/
def failureLine (text : String) (code : Code) (message : String) : Line :=
  ⟨.debug, "expression_evaluator", none, none,
    "Expression failed expr=" ++ text ++ " code=" ++ code.name ++ " error=" ++ message⟩

/-- Evaluates the text of an expression, with the lines that it writes. -/
def evaluate (context : Context) (text : String) : List Line × Outcome Finding :=
  let outcome := do
    let e ← Parser.parseText text.toList
    result context e
  match outcome with
  | .ok v => ([], .ok (.value v))
  | .error (.refused code message) =>
    ([failureLine text code message], .ok (.failure code message))
  | .error fault => ([], .error fault)

end StoryWorld.Expr
