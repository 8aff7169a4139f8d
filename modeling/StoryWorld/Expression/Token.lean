import StoryWorld.Path.Segment

/-!
The tokens of a prerequisite expression.

Tokens are found from left to right, the longest first; blanks between them mean nothing. A token
keeps its position, counted in characters. The scan walks the text once: at a character that starts
a token it emits the token and passes over the token's remaining characters.
-/

namespace StoryWorld

/-- The kinds of token. -/
inductive TokenKind where
  | path | number | string | boolean | keyword | compare | arithmetic | lparen | rparen
  deriving DecidableEq, Repr

/-- The word for a kind of token. -/
def TokenKind.name : TokenKind → String
  | path => "path"
  | number => "number"
  | string => "string"
  | boolean => "boolean"
  | keyword => "keyword"
  | compare => "compare"
  | arithmetic => "arithmetic"
  | lparen => "lparen"
  | rparen => "rparen"

/-- A token: its text, for a string the text between the quotes, and where it starts. -/
structure Token where
  kind : TokenKind
  value : List Char
  position : Nat
  deriving DecidableEq, Repr

namespace Token

/-- The token that starts a text: its kind, its value and how many characters it takes. -/
structure Lexeme where
  kind : TokenKind
  value : List Char
  width : Nat
  deriving DecidableEq, Repr

/-- Why no token starts at a place. -/
inductive Misfit where
  | unterminated | unknownOperator | unexpected
  deriving DecidableEq, Repr

/-- The comparison signs of two characters. -/
def isLongComparison (c d : Char) : Bool :=
  d == '=' && (c == '=' || c == '!' || c == '>' || c == '<')

/-- The signs of arithmetic. -/
def isArithmetic (c : Char) : Bool := c == '+' || c == '-' || c == '*' || c == '/'

/-- The further characters of a word: those of identifiers, points and brackets. -/
def continuesWord (c : Char) : Bool :=
  Segment.continuesIdentifier c || c == '.' || Segment.isBracket c

/-- The numeral at the start of a text: digits with or without a fraction, or a fraction alone. -/
def numeral? (s : List Char) : Option (List Char) :=
  let whole := s.takeWhile Text.isDigit
  match s.dropWhile Text.isDigit with
  | '.' :: rest =>
    let fraction := rest.takeWhile Text.isDigit
    if !fraction.isEmpty then some (whole ++ '.' :: fraction)
    else if whole.isEmpty then none else some whole
  | _ => if whole.isEmpty then none else some whole

/-- The kind of a word: two words are truth values, two are keywords, all others are paths. -/
def wordKind (word : List Char) : TokenKind :=
  if word = "true".toList ∨ word = "false".toList then .boolean
  else if word = "exists".toList ∨ word = "includes".toList then .keyword
  else .path

/-- The string after its opening quote. -/
def string? (quote : Char) (rest : List Char) : Option Lexeme :=
  let body := rest.takeWhile (· != quote)
  match rest.dropWhile (· != quote) with
  | [] => none
  | _ :: _ => some ⟨.string, body, body.length + 2⟩

/-- The token that starts with the character `c`, which is no blank, before `rest`. -/
def lexeme (c : Char) (rest : List Char) : Except Misfit Lexeme :=
  if c = '(' then .ok ⟨.lparen, [c], 1⟩
  else if c = ')' then .ok ⟨.rparen, [c], 1⟩
  else if rest.head?.any (isLongComparison c) then .ok ⟨.compare, [c, '='], 2⟩
  else if c = '>' ∨ c = '<' then .ok ⟨.compare, [c], 1⟩
  else if isArithmetic c then .ok ⟨.arithmetic, [c], 1⟩
  else if c = '\x22' ∨ c = '\x27' then
    match string? c rest with
    | some l => .ok l
    | none => .error .unterminated
  else
    match numeral? (c :: rest) with
    | some digits => .ok ⟨.number, digits, digits.length⟩
    | none =>
      if Segment.startsIdentifier c then
        let word := (c :: rest).takeWhile continuesWord
        .ok ⟨wordKind word, word, word.length⟩
      else if c = '=' ∨ c = '!' then .error .unknownOperator
      else .error .unexpected

/-- The message for a place where no token starts. -/
def misfitMessage (c : Char) (position : Nat) : Misfit → String
  | .unterminated => "Unterminated string literal at position " ++ toString position
  | .unknownOperator =>
    "Unrecognized operator '" ++ String.ofList [c] ++ "' at position " ++ toString position
  | .unexpected =>
    "Unexpected character at position " ++ toString position ++ ": '" ++ String.ofList [c] ++ "'"

/-- The tokens of the text from a position on, after `skip` characters that a token before has
already taken. -/
def scan (position skip : Nat) : List Char → Outcome (List Token)
  | [] => .ok []
  | c :: rest =>
    match skip with
    | skip + 1 => scan (position + 1) skip rest
    | 0 =>
      if Text.isBlank c then scan (position + 1) 0 rest
      else
        match lexeme c rest with
        | .error misfit => refuse .syntaxError (misfitMessage c position misfit)
        | .ok l => do
          let tokens ← scan (position + 1) (l.width - 1) rest
          return ⟨l.kind, l.value, position⟩ :: tokens

/-- The tokens of an expression. -/
def tokenize (s : List Char) : Outcome (List Token) := scan 0 0 s

end Token

end StoryWorld
