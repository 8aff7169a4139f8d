/-!
Capital letters of ASCII words.

Besides the small letters of ASCII, a few letters of other scripts have capitals that are ASCII:
the dotless i, the long s, the sharp s and the ligatures. All others keep their form, so a word
comes out as an ASCII word exactly if its capitals are one.
-/

namespace StoryWorld.Text

/-- The capitals of a character, where they are ASCII; otherwise the character itself. -/
def capitals (c : Char) : List Char :=
  match c with
  | '\u00df' => ['S', 'S']
  | '\u0131' => ['I']
  | '\u017f' => ['S']
  | '\ufb00' => ['F', 'F']
  | '\ufb01' => ['F', 'I']
  | '\ufb02' => ['F', 'L']
  | '\ufb03' => ['F', 'F', 'I']
  | '\ufb04' => ['F', 'F', 'L']
  | '\ufb05' => ['S', 'T']
  | '\ufb06' => ['S', 'T']
  | c => [c.toUpper]

/-- A text in capitals. -/
def capitalize (s : List Char) : List Char := s.flatMap capitals

end StoryWorld.Text
