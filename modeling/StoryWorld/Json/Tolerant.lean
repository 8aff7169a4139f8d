import StoryWorld.Fault
import StoryWorld.Json.Reader
import StoryWorld.Text.Blank
import StoryWorld.Text.Lines

/-!
Reading documents that come from a writer of prose.

A code fence around the text is taken off, line ends are made one kind, stray control characters
and commas before a closing bracket are dropped. If the rest is still no document, the longest
bracketed span in it is tried, starting at the first bracket of either kind.
-/

namespace StoryWorld.Json

/-- The mark of a code fence. -/
def fence : List Char := ['\x60', '\x60', '\x60']

/-- The text inside a code fence, or the text itself without the blanks around it. A fence needs
two lines at least. -/
def unfence (s : List Char) : List Char :=
  let trimmed := Text.trim s
  if fence.isPrefixOf trimmed && fence.isSuffixOf trimmed then
    let lines := Text.lines trimmed
    if 2 ≤ lines.length then Text.trim (Text.join ['\n'] (lines.drop 1).dropLast) else trimmed
  else trimmed

/-- A text in which every line ends with a line feed. -/
def unifyLineEnds : List Char → List Char
  | [] => []
  | '\r' :: '\n' :: rest => '\n' :: unifyLineEnds rest
  | '\r' :: rest => '\n' :: unifyLineEnds rest
  | c :: rest => c :: unifyLineEnds rest

/-- The control characters that no document holds outside a text. -/
def isStray (c : Char) : Bool :=
  let n := c.toNat
  n ≤ 0x08 || n == 0x0b || n == 0x0c || (0x0e ≤ n && n ≤ 0x1f)

/-- Whether the first character that is not blank closes a container. -/
def closesNext (s : List Char) : Bool :=
  match s.dropWhile Text.isBlank with
  | c :: _ => c == ']' || c == '\x7d'
  | [] => false

/-- A text without the commas that stand before a closing bracket, and without the blanks between
the two. -/
def dropTrailingCommas : List Char → List Char
  | [] => []
  | c :: rest =>
    if c == ',' && closesNext rest then (dropTrailingCommas rest).dropWhile Text.isBlank
    else c :: dropTrailingCommas rest

/-- The text that is read as a document. -/
def sanitize (s : List Char) : List Char :=
  dropTrailingCommas ((unifyLineEnds s).filter fun c => !isStray c)

/-- The first and last position of a span that starts with the first opening and ends with the last
closing bracket of one kind. -/
def span? (opening closing : Char) (s : List Char) : Option (Nat × Nat) :=
  match s.findIdx? (· == opening), s.reverse.findIdx? (· == closing) with
  | some first, some back =>
    let last := s.length - 1 - back
    if first < last then some (first, last) else none
  | _, _ => none

/-- The bracketed span that starts first. -/
def outermost? (s : List Char) : Option (List Char) :=
  let cut (span : Nat × Nat) : List Char := (s.drop span.1).take (span.2 + 1 - span.1)
  match span? '[' ']' s, span? '\x7b' '\x7d' s with
  | some a, some b => some (cut (if a.1 < b.1 then a else b))
  | some a, none => some (cut a)
  | none, some b => some (cut b)
  | none, none => none

/-- The document in a text, tolerantly read. -/
def load (s : List Char) : Outcome Value :=
  if (Text.trim s).isEmpty then refuse .invalidDelta "Empty JSON text"
  else
    let candidate := sanitize (unfence s)
    match read? stored candidate with
    | some v => .ok v
    | none =>
      match (outermost? candidate).bind (read? stored) with
      | some v => .ok v
      | none => refuse .invalidDelta "Invalid JSON document"

end StoryWorld.Json
