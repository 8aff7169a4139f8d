import StoryWorld.Expression.Token
import StoryWorld.Expression.Tree

/-!
Reading an expression from its tokens.

    expression := path "exists" | path "includes" sum | sum (comparison sum)?
    sum        := term (("+" | "-") term)*
    term       := unary (("*" | "/") unary)*
    unary      := "-" unary | atom
    atom       := number | string | "true" | "false" | path | "(" sum ")"

Operations of one rank group to the left. The functions below follow the grammar rule by rule; each
returns what it read and the tokens after it.
-/

namespace StoryWorld.Parser

/-- A message with the value and position of a token. -/
def unexpected (t : Token) : String :=
  "Unexpected token '" ++ String.ofList t.value ++ "' at position " ++ toString t.position

/-- The path of a token; what is malformed about it is reported with the token's position. -/
def pathRef (t : Token) : Outcome PathRef :=
  let text := String.ofList t.value
  match Segment.split t.value with
  | [] => .ok ⟨text, "", []⟩
  | root :: parts =>
    match Segment.parseAll text parts with
    | .ok segments => .ok ⟨text, String.ofList root, segments⟩
    | .error (.refused .malformedPath message) =>
      refuse .syntaxError
        ("Malformed path at position " ++ toString t.position ++ ": " ++ message)
    | .error fault => .error fault

/-- The number of a token: a float if it has a point, and else a whole number, whose length is
limited. -/
def number (value : List Char) : Outcome Number :=
  if value.contains '.' then
    let whole := value.takeWhile (· != '.')
    let fraction := (value.dropWhile (· != '.')).drop 1
    let x := Decimal.toFloat? false ⟨Text.natOfDigits (whole ++ fraction), -(fraction.length : Int)⟩
    .ok (.float (x.getD Binary.infinity))
  else
    match Text.nat? value with
    | some n => .ok (.int n)
    | none => .error .badNumeral

/-- The sum or difference that a token stands for. -/
def additive? (t : Token) : Option ArithmeticOp :=
  if t.kind ≠ .arithmetic then none
  else if t.value = ['+'] then some .add
  else if t.value = ['-'] then some .sub
  else none

/-- The product or quotient that a token stands for. -/
def multiplicative? (t : Token) : Option ArithmeticOp :=
  if t.kind ≠ .arithmetic then none
  else if t.value = ['*'] then some .mul
  else if t.value = ['/'] then some .div
  else none

/-- The comparison that a token stands for. -/
def comparison? (t : Token) : Option ComparisonOp :=
  if t.kind ≠ .compare then none
  else [ComparisonOp.eq, .ne, .gt, .lt, .ge, .le].find? fun op => op.sign = t.value

/-- What the grammar functions return: a tree and the tokens after it. -/
abbrev Step := Outcome (Expr × List Token)

/-- The refusal of a parenthesis that is not closed. -/
def unbalanced (t : Token) : Step :=
  refuse .syntaxError ("Unbalanced parenthesis opened at position " ++ toString t.position)

/-- The answer when the fuel runs out, which the fuel of `parse` rules out. -/
def stalled : Step := refuse .syntaxError "Unexpected end of expression"

mutual

/-- A sum: a term, then further terms. -/
def sum : Nat → List Token → Step
  | 0, _ => stalled
  | fuel + 1, ts => do
    let (left, rest) ← term fuel ts
    sumRest fuel left rest

/-- The further terms of a sum, added to or taken from what stands before them. -/
def sumRest : Nat → Expr → List Token → Step
  | 0, _, _ => stalled
  | _ + 1, left, [] => .ok (left, [])
  | fuel + 1, left, t :: rest =>
    match additive? t with
    | none => .ok (left, t :: rest)
    | some op => do
      let (right, rest) ← term fuel rest
      sumRest fuel (.arithmetic op left right) rest

/-- A term: a factor, then further factors. -/
def term : Nat → List Token → Step
  | 0, _ => stalled
  | fuel + 1, ts => do
    let (left, rest) ← unary fuel ts
    termRest fuel left rest

/-- The further factors of a term. -/
def termRest : Nat → Expr → List Token → Step
  | 0, _, _ => stalled
  | _ + 1, left, [] => .ok (left, [])
  | fuel + 1, left, t :: rest =>
    match multiplicative? t with
    | none => .ok (left, t :: rest)
    | some op => do
      let (right, rest) ← unary fuel rest
      termRest fuel (.arithmetic op left right) rest

/-- A factor: an atom with any number of minus signs before it. -/
def unary : Nat → List Token → Step
  | 0, _ => stalled
  | _ + 1, [] => refuse .syntaxError "Unexpected end of expression"
  | fuel + 1, t :: rest =>
    if additive? t = some .sub then do
      let (operand, rest) ← unary fuel rest
      return (.negate operand, rest)
    else atom fuel t rest

/-- An atom, given by its first token. -/
def atom : Nat → Token → List Token → Step
  | 0, _, _ => stalled
  | fuel + 1, t, rest =>
    match t.kind with
    | .number => do
      let n ← number t.value
      return (.literal (.number n), rest)
    | .string => .ok (.literal (.text (String.ofList t.value)), rest)
    | .boolean => .ok (.literal (.bool (t.value == "true".toList)), rest)
    | .path => do
      let ref ← pathRef t
      return (.path ref, rest)
    | .lparen => do
      let (inner, rest) ← sum fuel rest
      match rest with
      | closing :: rest =>
        if closing.kind = .rparen then .ok (inner, rest) else unbalanced t
      | [] => unbalanced t
    | _ => refuse .syntaxError (unexpected t)

end

/-- Enough fuel for every expression of so many tokens: between two tokens at most four rules are
entered. -/
def fuelFor (ts : List Token) : Nat := 4 * ts.length + 4

/-- A sum on its own, or two of them compared. -/
def compared (ts : List Token) : Step := do
  let (left, rest) ← sum (fuelFor ts) ts
  match rest with
  | t :: after =>
    match comparison? t with
    | some op =>
      let (right, rest) ← sum (fuelFor after) after
      return (.comparison op left right, rest)
    | none => return (left, t :: after)
  | [] => return (left, [])

/-- An expression: a path with a keyword after it, or a comparison. -/
def expression (ts : List Token) : Step :=
  match ts with
  | head :: word :: rest =>
    if head.kind = .path ∧ word.kind = .keyword then do
      let ref ← pathRef head
      if word.value = "exists".toList then return (.present ref, rest)
      else
        let (needle, rest) ← sum (fuelFor rest) rest
        return (.includes ref needle, rest)
    else compared ts
  | _ => compared ts

/-- The expression that a list of tokens is. -/
def parse (ts : List Token) : Outcome Expr :=
  if ts.isEmpty then refuse .syntaxError "Empty expression"
  else do
    let (e, rest) ← expression ts
    match rest with
    | [] => return e
    | t :: _ => refuse .syntaxError (unexpected t)

/-- The expression that a text is. -/
def parseText (s : List Char) : Outcome Expr := do
  let ts ← Token.tokenize s
  parse ts

end StoryWorld.Parser
