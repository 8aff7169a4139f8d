import StoryWorld.Path.Segment

/-!
The trees of prerequisite expressions.
-/

namespace StoryWorld

/-- The operations of arithmetic. -/
inductive ArithmeticOp where
  | add | sub | mul | div
  deriving DecidableEq, Repr

/-- The sign of an operation. -/
def ArithmeticOp.sign : ArithmeticOp → Char
  | add => '+'
  | sub => '-'
  | mul => '*'
  | div => '/'

/-- The comparisons. -/
inductive ComparisonOp where
  | eq | ne | gt | lt | ge | le
  deriving DecidableEq, Repr

/-- The sign of a comparison. -/
def ComparisonOp.sign : ComparisonOp → List Char
  | eq => ['=', '=']
  | ne => ['!', '=']
  | gt => ['>']
  | lt => ['<']
  | ge => ['>', '=']
  | le => ['<', '=']

/-- A constant of an expression. -/
inductive Literal where
  | number (n : Number)
  | text (s : String)
  | bool (b : Bool)
  deriving DecidableEq, Repr

/-- The value of a constant. -/
def Literal.value : Literal → Value
  | number n => .number n
  | text s => .text s
  | bool b => .bool b

/-- A path in an expression: its text, the role it starts from, and the segments after that. -/
structure PathRef where
  text : String
  root : String
  segments : List Segment
  deriving DecidableEq, Repr

/-- An expression. -/
inductive Expr where
  | literal (value : Literal)
  | path (ref : PathRef)
  | negate (operand : Expr)
  | arithmetic (op : ArithmeticOp) (left right : Expr)
  | comparison (op : ComparisonOp) (left right : Expr)
  | present (path : PathRef)
  | includes (path : PathRef) (needle : Expr)
  deriving DecidableEq, Repr

end StoryWorld
